import ConfigTemplate.Proofs.Document.Nesting

/-!
# Refused events

An event that is refused leaves no mark on the assembly, however many events have come before it and
whatever became of them. An event of a self-closing element opens and closes, but once the element is
open it can be closed, so such an event is refused only as a whole.

Results:
1. `keeps_onText`, `keeps_onOpen`, `keeps_onClose`: the operations leave the assembly as it was when
   they fail.
2. `onClose_of_onOpen`: an element that has just been opened can be closed.
3. `refused_leaves`: a refused event can be left out of any sequence of events.
-/

namespace ConfigTemplate.Document

open Markup (Attributes Event HandlerM ParseError)

namespace Assembly

variable {α β : Type} {name : String} {attributes : Attributes} {line : Nat} {cause : ParseError}

/-! ## Computations -/

/-- When the computation fails, it leaves the assembly as it was. -/
def Keeps (computation : HandlerM Assembly α) : Prop :=
  ∀ state cause after, computation state = (.error cause, after) → after = state

/-- The computation leaves every assembly as it is. -/
def Reads (computation : HandlerM Assembly α) : Prop :=
  ∀ state, (computation state).2 = state

/-- The computation does not fail. -/
def Succeeds (computation : HandlerM Assembly α) : Prop :=
  ∀ state, ∃ value after, computation state = (.ok value, after)

theorem reads_get : Reads get := fun _ => rfl

theorem reads_ofExcept (result : Except ParseError α) : Reads (Attempt.ofExcept result) :=
  fun _ => rfl

theorem succeeds_pure (value : α) : Succeeds (pure value) := fun state => ⟨value, state, rfl⟩

theorem keeps_set (assembly : Assembly) : Keeps (set assembly) := fun _ _ _ fails => nomatch fails

theorem keeps_throw (cause : ParseError) : Keeps (throw cause : HandlerM Assembly α) := by
  intro state other after fails
  cases fails
  rfl

/-- A computation may read the assembly before it goes on. -/
theorem Reads.bind {first : HandlerM Assembly α} {second : α → HandlerM Assembly β}
    (reads : Reads first) (keeps : ∀ value, Keeps (second value)) : Keeps (first >>= second) := by
  intro state cause after fails
  have unchanged := reads state
  rcases Attempt.run_bind_eq_error_iff.1 fails with now | ⟨value, middle, begins, later⟩
  · rw [now] at unchanged
    exact unchanged
  · rw [begins] at unchanged
    obtain rfl : middle = state := unchanged
    exact keeps value middle cause after later

/-- A computation may change the assembly when nothing fails behind the change. -/
theorem Keeps.bind {first : HandlerM Assembly α} {second : α → HandlerM Assembly β}
    (keeps : Keeps first) (succeeds : ∀ value, Succeeds (second value)) :
    Keeps (first >>= second) := by
  intro state cause after fails
  rcases Attempt.run_bind_eq_error_iff.1 fails with now | ⟨value, middle, -, later⟩
  · exact keeps state cause after now
  · obtain ⟨_, _, continues⟩ := succeeds value middle
    rw [continues] at later
    cases later

/-! ## Operations -/

theorem keeps_onText (text : String) (line : Nat) : Keeps (onText text line) :=
  reads_get.bind fun assembly => by
    split
    · exact (reads_ofExcept _).bind fun _ => keeps_set _
    · exact keeps_set _

theorem keeps_openInclude (attributes : Attributes) (line : Nat) :
    Keeps (openInclude attributes line) :=
  reads_get.bind fun assembly => by
    cases assembly.pendingInclude with
    | some path => exact keeps_throw _
    | none =>
      cases attributes.get? "path" with
      | some path => exact keeps_set _
      | none => exact keeps_throw _

theorem keeps_onOpen (name : String) (attributes : Attributes) (line : Nat) :
    Keeps (onOpen name attributes line) :=
  reads_get.bind fun assembly => by
    split
    · exact (reads_ofExcept _).bind fun _ => keeps_set _
    · split
      · exact (reads_ofExcept _).bind fun _ => keeps_set _
      · split
        · exact keeps_openInclude attributes line
        · exact keeps_set _

theorem keeps_closeBlock (name : String) (line : Nat) : Keeps (closeBlock name line) :=
  reads_get.bind fun assembly => by
    split
    · split
      · exact keeps_set _
      · exact keeps_throw _
    · exact keeps_throw _

theorem keeps_onClose (name : String) (line : Nat) : Keeps (onClose name line) :=
  reads_get.bind fun assembly => by
    split
    · refine (reads_ofExcept _).bind fun closed => ?_
      split
      · exact (keeps_set _).bind fun _ => succeeds_pure _
      · exact (keeps_set _).bind fun _ => succeeds_pure _
    · split
      · split
        · exact (keeps_set _).bind fun _ => succeeds_pure _
        · exact (keeps_closeBlock name line).bind fun _ => succeeds_pure _
      · exact (keeps_closeBlock name line).bind fun _ => succeeds_pure _

end Assembly

/-! ## Elements that have just been opened -/

namespace OpenDeclaration

variable {name : String} {attributes : Attributes} {line : Nat} {current later : OpenDeclaration}

theorem head?_openElements (current : OpenDeclaration) :
    current.openElements.head? = some current.openElement := by
  unfold openElements openElement
  split <;> rfl

theorem openElement_of_start {keyword : Keyword}
    (starts : start keyword attributes line = .ok current) :
    current.openElement = keyword.element := by
  have first := head?_openElements current
  rw [openElements_of_start starts] at first
  exact (Option.some.inj first).symm

/-- What is opened inside of a declaration is then the innermost open element. -/
theorem openElement_of_openInside {inner : Option OpenDeclaration}
    (opens : current.openInside name attributes line = .ok (later, inner)) :
    (inner.getD later).openElement = name := by
  obtain ⟨-, same⟩ := openElements_of_openInside opens
  have first := head?_openElements (inner.getD later)
  cases inner with
  | none =>
    rw [Option.toList_none, List.nil_append, List.flatMap_singleton] at same
    rw [Option.getD_none, same] at first
    exact (Option.some.inj first).symm
  | some inner =>
    have whole := congrArg List.head? same
    rw [Option.toList_some, List.singleton_append, List.flatMap_cons, List.head?_append,
      head?_openElements] at whole
    exact Option.some.inj whole

end OpenDeclaration

namespace Assembly

variable {name : String} {attributes : Attributes} {line : Nat} {assembly opened : Assembly}

/-- The innermost open element of a declaration can be closed. -/
theorem onClose_of_openElement {current : OpenDeclaration} {outer : List OpenDeclaration}
    (isOpen : assembly.declarations = current :: outer) (named : current.openElement = name)
    (line : Nat) : ∃ answer after, onClose name line assembly = (.ok answer, after) := by
  rw [onClose, Attempt.run_get_bind, isOpen]
  dsimp only
  have closes : ∃ left, current.closeInside name line = .ok left := by
    unfold OpenDeclaration.closeInside
    rw [if_neg (not_not_intro named.symm)]
    split <;> exact ⟨_, rfl⟩
  obtain ⟨left, closes⟩ := closes
  rw [closes, Attempt.run_bind, Attempt.run_ofExcept]
  cases left with
  | some later => exact ⟨_, _, rfl⟩
  | none => exact ⟨_, _, rfl⟩

/-- The innermost open block can be closed when no declaration is open. -/
theorem onClose_of_block {id : NodeId} {outer : List (NodeId × String)}
    (outside : assembly.declarations = []) (isOpen : assembly.blocks = (id, name) :: outer)
    (ordinary : name ≠ "include") (line : Nat) :
    ∃ answer after, onClose name line assembly = (.ok answer, after) := by
  have closes : closeBlock name line assembly = (.ok (), { assembly with blocks := outer }) := by
    rw [closeBlock, Attempt.run_get_bind, isOpen]
    dsimp only
    rw [if_pos rfl]
    rfl
  rw [onClose, Attempt.run_get_bind, outside]
  dsimp only
  cases pending : assembly.pendingInclude with
  | some path =>
    dsimp only
    rw [if_neg ordinary, Attempt.run_bind, closes]
    exact ⟨_, _, rfl⟩
  | none =>
    dsimp only
    rw [Attempt.run_bind, closes]
    exact ⟨_, _, rfl⟩

theorem onClose_of_openInclude
    (outside : assembly.declarations = [])
    (opens : openInclude attributes line assembly = (.ok (), opened)) :
    ∃ answer after, onClose "include" line opened = (.ok answer, after) := by
  rw [openInclude, Attempt.run_get_bind] at opens
  cases pending : assembly.pendingInclude with
  | some path =>
    rw [pending] at opens
    cases opens
  | none =>
    rw [pending] at opens
    cases given : attributes.get? "path" with
    | none =>
      rw [given] at opens
      cases opens
    | some path =>
      rw [given] at opens
      cases opens
      rw [onClose, Attempt.run_get_bind]
      dsimp only
      rw [outside]
      exact ⟨_, _, rfl⟩

/-- An element that has just been opened can be closed. -/
theorem onClose_of_onOpen (opens : onOpen name attributes line assembly = (.ok (), opened)) :
    ∃ answer after, onClose name line opened = (.ok answer, after) := by
  rw [onOpen, Attempt.run_get_bind] at opens
  cases isOpen : assembly.declarations with
  | cons current outer =>
    rw [isOpen] at opens
    obtain ⟨⟨later, inner⟩, inside, opens⟩ := Attempt.run_ofExcept_bind_eq_ok_iff.1 opens
    cases opens
    have named := OpenDeclaration.openElement_of_openInside inside
    cases inner with
    | none => exact onClose_of_openElement rfl named line
    | some inner => exact onClose_of_openElement rfl named line
  | nil =>
    rw [isOpen] at opens
    dsimp only at opens
    cases found : Keyword.ofElement? name with
    | some keyword =>
      rw [found] at opens
      obtain ⟨started, starts, opens⟩ := Attempt.run_ofExcept_bind_eq_ok_iff.1 opens
      cases opens
      have named := OpenDeclaration.openElement_of_start starts
      rw [Keyword.element_of_ofElement? found] at named
      exact onClose_of_openElement rfl named line
    | none =>
      rw [found] at opens
      dsimp only at opens
      by_cases reserved : name = "include"
      · rw [if_pos reserved] at opens
        subst reserved
        exact onClose_of_openInclude isOpen opens
      · rw [if_neg reserved] at opens
        cases opens
        have outside : (assembly.openBlock name line).declarations = [] := isOpen
        exact onClose_of_block outside rfl reserved line

/-! ## Events -/

/-- An event that is refused leaves the assembly as it was. -/
theorem keeps_receive (event : Event) : Keeps (handler.receive event) := by
  cases event with
  | text content line => exact (keeps_onText content line).bind fun _ => succeeds_pure _
  | closed name line => exact keeps_onClose name line
  | opened name attributes line selfClosing =>
    intro assembly cause after refuses
    rcases Attempt.run_bind_eq_error_iff.1 refuses with fails | ⟨⟨⟩, opened, opens, closes⟩
    · exact keeps_onOpen name attributes line assembly cause after fails
    -- An element that has been opened is not refused when it is closed.
    · cases selfClosing with
      | false => cases closes
      | true =>
        obtain ⟨answer, later, succeeds⟩ := onClose_of_onOpen opens
        cases closes.symm.trans succeeds

/-- The answers to events that are received one after the other, whatever becomes of each, and the
assembly that they leave. -/
def answers : List Event → Assembly → List (Except ParseError (Option String)) × Assembly
  | [], assembly => ([], assembly)
  | event :: rest, assembly =>
    let received := handler.receive event assembly
    let further := answers rest received.2
    (received.1 :: further.1, further.2)

theorem length_answers (events : List Event) (assembly : Assembly) :
    (answers events assembly).1.length = events.length := by
  induction events generalizing assembly with
  | nil => rfl
  | cons event events ih => exact congrArg Nat.succ (ih _)

theorem answers_append (events later : List Event) (assembly : Assembly) :
    answers (events ++ later) assembly =
      let before := answers events assembly
      let behind := answers later before.2
      (before.1 ++ behind.1, behind.2) := by
  induction events generalizing assembly with
  | nil => rfl
  | cons event events ih =>
    rw [List.cons_append, answers, ih]
    rfl

theorem answers_refused {assembly : Assembly} {event : Event} {cause : ParseError} (later : List Event)
    (refuses : handler.receive event assembly = (.error cause, assembly)) :
    answers (event :: later) assembly =
      (.error cause :: (answers later assembly).1, (answers later assembly).2) := by
  rw [answers, refuses]

/-- An event that is refused leaves the assembly as the events before have left it, whatever has become
of them. All later events are answered as if it had not come, and leave the same assembly. -/
theorem refused_leaves {events : List Event} {event : Event} {cause : ParseError} {after : Assembly}
    (refuses : handler.receive event (answers events empty).2 = (.error cause, after)) :
    after = (answers events empty).2 ∧ ∀ later : List Event, ∃ front back last,
      front.length = events.length ∧ answers (events ++ later) empty = (front ++ back, last) ∧
        answers (events ++ event :: later) empty = (front ++ .error cause :: back, last) := by
  obtain rfl := keeps_receive event _ cause after refuses
  refine ⟨rfl, fun later => ⟨_, _, _, length_answers events empty,
    answers_append events later empty, ?_⟩⟩
  rw [answers_append]
  dsimp only
  rw [answers_refused later refuses]

/-- A configuration inside of a block. It refuses a block, and to be closed before its description. -/
def exBefore : List Event :=
  [.opened "a" .empty 1 false, .opened "config" (.ofList [("name", "c")]) 1 false,
    .opened "b" .empty 2 true, .opened "description" .empty 3 false, .text "d" 3, .closed "config" 3]

/-- The block around the configuration cannot be closed either, and then the description still can. -/
theorem exBefore_refused :
    let cause : ParseError := .malformed 4 (.mismatchedInside "a" "description")
    let reached := (answers exBefore empty).2
    handler.receive (.closed "a" 4) reached = (.error cause, reached) ∧
      ∃ front back last, front.length = 6 ∧
        answers (exBefore ++ [.closed "description" 5, .closed "config" 5, .closed "a" 5]) empty =
          (front ++ back, last) ∧
        answers (exBefore ++ .closed "a" 4 ::
          [.closed "description" 5, .closed "config" 5, .closed "a" 5]) empty =
            (front ++ .error cause :: back, last) := by
  intro cause reached
  have refuses : handler.receive (.closed "a" 4) reached = (.error cause, reached) := by
    show (_ : Except ParseError (Option String) × Assembly) = _
    decide +kernel
  exact ⟨refuses, (refused_leaves refuses).2 _⟩

end Assembly

end ConfigTemplate.Document
