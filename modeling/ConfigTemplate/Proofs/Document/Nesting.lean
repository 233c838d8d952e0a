import ConfigTemplate.Proofs.Document.Sketch

/-!
# Nesting of elements

An assembly keeps what is open in several places: blocks, declarations and their descriptions, and
an `include` element. The first three together are one stack, so their elements are properly nested.
An `include` element is kept beside the stack. It is closed whatever was opened inside of it, and
other elements are closed whether or not it is open.

Results:
1. `Assembly.pairs_of_closed`: the elements of events that are all accepted pair up, apart from the
   place of `include` elements.
2. `Pairs.closes_iff`: they are properly nested just if the content of every `include` element is.
3. `balanced_of_assemble`: what this means for events that make a tree.
-/

namespace ConfigTemplate.Document

open Markup (Attributes Event HandlerM ParseError)

/-! ## Balanced events -/

/-- The opening or the closing of an element. -/
inductive Bracket where
  | opened (name : String)
  | closed (name : String)
deriving DecidableEq, Repr

namespace Bracket

def name : Bracket → String
  | .opened name | .closed name => name

/-- Whether an element other than `include` is opened or closed. -/
def isOrdinary (bracket : Bracket) : Bool := bracket.name != "include"

end Bracket

/-- The elements that an event opens and closes. -/
def bracketsOf : Event → List Bracket
  | .text _ _ => []
  | .opened name _ _ selfClosing => .opened name :: if selfClosing then [.closed name] else []
  | .closed name _ => [.closed name]

/-- The elements of the list are open, the innermost first. The brackets close them in this order, and
every element that they open is closed before those around it. -/
inductive Closes : List String → List Bracket → Prop where
  | nil : Closes [] []
  | opened {name : String} {outer : List String} {rest : List Bracket}
      (further : Closes (name :: outer) rest) : Closes outer (.opened name :: rest)
  | closed {name : String} {outer : List String} {rest : List Bracket}
      (further : Closes outer rest) : Closes (name :: outer) (.closed name :: rest)

/-- Whatever is closed is what was opened last and is still open, and whatever is opened is closed. -/
def Balanced (brackets : List Bracket) : Prop := Closes [] brackets

/-- What stands between the opening of an `include` element and its closing is balanced. -/
def IncludesBalanced (brackets : List Bracket) : Prop :=
  ∀ before inside behind,
    brackets = before ++ .opened "include" :: (inside ++ .closed "include" :: behind) →
    inside.all Bracket.isOrdinary → Balanced inside

variable {name : String} {outer inner : List String} {rest inside behind : List Bracket}
  {bracket : Bracket} {pending : Bool}

namespace Closes

theorem of_opened (closes : Closes outer (.opened name :: rest)) : Closes (name :: outer) rest := by
  cases closes with
  | opened further => exact further

theorem of_closed (closes : Closes outer (.closed name :: rest)) :
    ∃ others, outer = name :: others ∧ Closes others rest := by
  cases closes with
  | closed further => exact ⟨_, rfl, further⟩

/-- What closes some elements can be followed by what closes those around them. -/
theorem append (closes : Closes inner inside) (further : Closes outer rest) :
    Closes (inner ++ outer) (inside ++ rest) := by
  induction closes with
  | nil => exact further
  | opened _ ih => exact .opened ih
  | closed _ ih => exact .closed ih

/-- Behind the first brackets some elements are open, which the others close. -/
theorem of_append (closes : Closes outer (inside ++ rest)) : ∃ left, Closes left rest := by
  induction inside generalizing outer with
  | nil => exact ⟨outer, closes⟩
  | cons bracket inside ih =>
    cases closes with
    | opened further | closed further => exact ih further

/-- If an `include` element is closed behind brackets that do not open or close any, then they close
everything inside of it. -/
theorem inside_include (ordinary : inside.all Bracket.isOrdinary)
    (plain : ∀ name ∈ inner, name ≠ "include")
    (closes : Closes (inner ++ "include" :: outer) (inside ++ .closed "include" :: behind)) :
    Closes inner inside := by
  induction inside generalizing inner with
  | nil =>
    cases inner with
    | nil => exact .nil
    | cons first inner =>
      cases closes
      exact absurd rfl (plain _ List.mem_cons_self)
  | cons bracket inside ih =>
    rw [List.all_cons, Bool.and_eq_true] at ordinary
    obtain ⟨differs, ordinary⟩ := ordinary
    rw [Bracket.isOrdinary, bne_iff_ne] at differs
    cases bracket with
    | opened name =>
      exact .opened (ih ordinary (List.forall_mem_cons.2 ⟨differs, plain⟩) closes.of_opened)
    | closed name =>
      obtain ⟨others, same, further⟩ := closes.of_closed
      cases inner with
      | nil =>
        cases same
        exact absurd rfl differs
      | cons first inner =>
        cases same
        exact .closed (ih ordinary (fun other member => plain other (.tail _ member)) further)

/-- In balanced brackets the content of every `include` element is balanced. -/
theorem includesBalanced {brackets : List Bracket} (balanced : Balanced brackets) :
    IncludesBalanced brackets := by
  rintro before inside behind rfl ordinary
  obtain ⟨outer, closes⟩ := Closes.of_append balanced
  exact inside_include ordinary (fun _ member => nomatch member) closes.of_opened

end Closes

/-! ## Elements beside the stack -/

/-- The brackets close the elements of the list as in `Closes`, but an `include` element is opened and
closed beside the others. The flag says whether one is open. -/
inductive Pairs : List String → Bool → List Bracket → Prop where
  | nil : Pairs [] false []
  | opened {name : String} {outer : List String} {pending : Bool} {rest : List Bracket}
      (ordinary : name ≠ "include") (further : Pairs (name :: outer) pending rest) :
      Pairs outer pending (.opened name :: rest)
  | closed {name : String} {outer : List String} {pending : Bool} {rest : List Bracket}
      (ordinary : name ≠ "include") (further : Pairs outer pending rest) :
      Pairs (name :: outer) pending (.closed name :: rest)
  | openInclude {outer : List String} {rest : List Bracket} (further : Pairs outer true rest) :
      Pairs outer false (.opened "include" :: rest)
  | closeInclude {outer : List String} {rest : List Bracket} (further : Pairs outer false rest) :
      Pairs outer true (.closed "include" :: rest)

namespace Pairs

theorem of_opened (ordinary : name ≠ "include") (pairs : Pairs outer pending (.opened name :: rest)) :
    Pairs (name :: outer) pending rest := by
  cases pairs with
  | opened _ further => exact further
  | openInclude => exact absurd rfl ordinary

theorem of_closed (ordinary : name ≠ "include") (pairs : Pairs outer pending (.closed name :: rest)) :
    ∃ others, outer = name :: others ∧ Pairs others pending rest := by
  cases pairs with
  | closed _ further => exact ⟨_, rfl, further⟩
  | closeInclude => exact absurd rfl ordinary

/-- Without the `include` elements the brackets are properly nested. -/
theorem closes_ordinary {brackets : List Bracket} (pairs : Pairs outer pending brackets) :
    Closes outer (brackets.filter Bracket.isOrdinary) := by
  induction pairs with
  | nil => exact .nil
  | @opened name _ _ _ ordinary _ ih =>
    have kept : (Bracket.opened name).isOrdinary := bne_iff_ne.2 ordinary
    rw [List.filter_cons_of_pos kept]
    exact .opened ih
  | @closed name _ _ _ ordinary _ ih =>
    have kept : (Bracket.closed name).isOrdinary := bne_iff_ne.2 ordinary
    rw [List.filter_cons_of_pos kept]
    exact .closed ih
  | openInclude _ ih | closeInclude _ ih => rwa [List.filter_cons_of_neg (by decide)]

/-- An open `include` element is closed at some point, and only then can another one be opened. -/
theorem exists_close {brackets : List Bracket} (pairs : Pairs outer true brackets) :
    ∃ inside behind, brackets = inside ++ .closed "include" :: behind ∧
      inside.all Bracket.isOrdinary := by
  generalize isOpen : true = pending at pairs
  induction pairs with
  | nil | openInclude => cases isOpen
  | closeInclude further => exact ⟨[], _, rfl, rfl⟩
  | opened ordinary _ ih | closed ordinary _ ih =>
    obtain ⟨inside, behind, rfl, others⟩ := ih isOpen
    exact ⟨_ :: inside, behind, rfl, by simp [others, Bracket.isOrdinary, Bracket.name, ordinary]⟩

/-- Behind brackets that close all that they open, the same elements are open as before. -/
theorem of_closes (closes : Closes inner inside) (ordinary : inside.all Bracket.isOrdinary)
    (pairs : Pairs (inner ++ outer) pending (inside ++ rest)) : Pairs outer pending rest := by
  induction closes with
  | nil => exact pairs
  | opened _ ih =>
    rw [List.all_cons, Bool.and_eq_true] at ordinary
    exact ih ordinary.2 (pairs.of_opened (bne_iff_ne.1 ordinary.1))
  | closed _ ih =>
    rw [List.all_cons, Bool.and_eq_true] at ordinary
    obtain ⟨others, same, further⟩ := pairs.of_closed (bne_iff_ne.1 ordinary.1)
    cases same
    exact ih ordinary.2 further

/-- Outside of `include` elements the brackets are properly nested, if the content of each such element
is balanced. -/
theorem closes {brackets : List Bracket} (pairs : Pairs outer false brackets)
    (includes : IncludesBalanced brackets) : Closes outer brackets := by
  induction size : brackets.length using Nat.strong_induction_on generalizing outer brackets with
  | _ size ih =>
    subst size
    have tail : ∀ {first : Bracket} {rest : List Bracket}, IncludesBalanced (first :: rest) →
        IncludesBalanced rest := fun {first rest} includes before inside behind split =>
      includes (first :: before) inside behind (congrArg (first :: ·) split)
    cases pairs with
    | nil => exact .nil
    | opened _ further => exact .opened (ih _ (by simp) further (tail includes) rfl)
    | closed _ further => exact .closed (ih _ (by simp) further (tail includes) rfl)
    | openInclude further =>
      obtain ⟨inside, behind, rfl, ordinary⟩ := further.exists_close
      have balanced : Closes [] inside := includes [] inside behind rfl ordinary
      -- The element encloses balanced brackets, so nothing that was open before is closed inside.
      have others : Pairs outer true (.closed "include" :: behind) := of_closes balanced ordinary further
      cases others with
      | closed differs => exact absurd rfl differs
      | closeInclude others =>
        have after : IncludesBalanced behind := fun before within last split =>
          includes (.opened "include" :: (inside ++ .closed "include" :: before)) within last
            (by simp [split])
        have shorter : behind.length < (Bracket.opened "include" ::
            (inside ++ .closed "include" :: behind)).length := by
          simp only [List.length_cons, List.length_append]
          omega
        exact .opened (balanced.append (.closed (ih _ shorter others after rfl)))

theorem closes_iff {brackets : List Bracket} (pairs : Pairs [] false brackets) :
    Balanced brackets ↔ IncludesBalanced brackets :=
  ⟨Closes.includesBalanced, pairs.closes⟩

end Pairs

/-! ## What is open -/

/-- The elements of a declaration that are open, the innermost first. -/
def OpenDeclaration.openElements (current : OpenDeclaration) : List String :=
  (if current.inDescription then ["description"] else []) ++ [current.keyword.element]

theorem Keyword.element_ne_include (keyword : Keyword) : keyword.element ≠ "include" := by
  cases keyword <;> decide

theorem Keyword.element_of_ofElement? {keyword : Keyword} (found : ofElement? name = some keyword) :
    keyword.element = name := by
  have named := List.find?_some found
  exact of_decide_eq_true named

namespace OpenDeclaration

variable {current later : OpenDeclaration} {attributes : Attributes} {line : Nat}

theorem openElements_of_start {keyword : Keyword}
    (starts : start keyword attributes line = .ok later) :
    later.openElements = [keyword.element] := by
  unfold start at starts
  by_cases missing : keyword.requiresName && (attributes.get? "name").isNone
  · rw [if_pos missing] at starts
    cases starts
  · rw [if_neg missing] at starts
    cases keyword with
    | project | define | require =>
      cases starts
      rfl
    | config | property =>
      obtain ⟨flag, -, same⟩ := except_bind_eq_ok starts
      cases same
      rfl

theorem openElements_of_addText {text : String} (adds : current.addText text line = .ok later) :
    later.openElements = current.openElements := by
  unfold addText at adds
  split at adds
  · cases adds
    rfl
  split at adds
  · cases adds
    rfl
  split at adds <;> cases adds
  rfl

/-- An element inside is put on top of those that are open, and it is no `include` element. -/
theorem openElements_of_openInside {opened : Option OpenDeclaration}
    (opens : current.openInside name attributes line = .ok (later, opened)) :
    name ≠ "include" ∧
      (opened.toList ++ [later]).flatMap openElements = name :: current.openElements := by
  unfold openInside at opens
  split at opens
  · cases opens
  rename_i described
  split at opens
  · rename_i describes
    cases opens
    exact ⟨by rw [describes]; decide, by simp [openElements, described, describes]⟩
  split at opens
  · rename_i property
    obtain ⟨started, starts, same⟩ := except_bind_eq_ok opens
    cases same
    refine ⟨property.2 ▸ Keyword.element_ne_include _, ?_⟩
    simp [openElements_of_start starts, property.2]
  · cases opens

/-- Inside of a declaration the element on top is closed. The declaration itself is the last one. -/
theorem openElements_of_closeInside {left : Option OpenDeclaration}
    (closes : current.closeInside name line = .ok left) :
    name ≠ "include" ∧ current.openElements = name :: left.toList.flatMap openElements := by
  unfold closeInside at closes
  split at closes
  · cases closes
  rename_i same
  rw [not_ne_iff] at same
  split at closes
  · rename_i described
    cases closes
    refine ⟨by rw [same]; simp [openElement, described], ?_⟩
    simp [openElements, openElement, same, described]
  · rename_i described
    cases closes
    refine ⟨by simpa [same, openElement, described] using Keyword.element_ne_include _, ?_⟩
    simp [openElements, openElement, same, described]

end OpenDeclaration

/-! ## Events -/

namespace Sketch

variable {α : Type} {put : Nat × Content → List α} {sketch middle later : Sketch α}
  {attributes : Attributes} {answer : Option String}

/-- The elements that are open, the innermost first, apart from an `include` element. -/
def openElements (sketch : Sketch α) : List String :=
  sketch.declarations.flatMap OpenDeclaration.openElements ++ sketch.blocks

/-- The brackets close what is open in the sketch. -/
def Ends (sketch : Sketch α) (brackets : List Bracket) : Prop :=
  Pairs sketch.openElements sketch.pendingInclude.isSome brackets

/-- Brackets take one sketch to another: with them in front, what ends the second ends the first. No
block has the name `include`. -/
def Leads (sketch later : Sketch α) (brackets : List Bracket) : Prop :=
  "include" ∉ sketch.blocks →
    "include" ∉ later.blocks ∧ ∀ rest, later.Ends rest → sketch.Ends (brackets ++ rest)

theorem Leads.trans {front back : List Bracket} (first : sketch.Leads middle front)
    (second : middle.Leads later back) : sketch.Leads later (front ++ back) := by
  intro free
  obtain ⟨free, begins⟩ := first free
  obtain ⟨free, continues⟩ := second free
  refine ⟨free, fun rest ends => ?_⟩
  rw [List.append_assoc]
  exact begins _ (continues rest ends)

theorem eq_ok_of_toOption {ε β : Type} {result : Except ε β} {value : β}
    (found : result.toOption = some value) : result = .ok value := by
  cases result with
  | error cause => cases found
  | ok other => exact congrArg _ (Option.some.inj found)

/-- Where the same elements are open, the same brackets end a sketch. -/
theorem Leads.of_eq (opened : later.openElements = sketch.openElements)
    (blocks : later.blocks = sketch.blocks) (pending : later.pendingInclude = sketch.pendingInclude) :
    sketch.Leads later [] := by
  intro free
  refine ⟨blocks ▸ free, fun rest ends => ?_⟩
  rwa [Ends, opened, pending] at ends

theorem leads_onText {text : String} (writes : sketch.onText put text = some later) :
    sketch.Leads later [] := by
  unfold onText at writes
  split at writes
  · rename_i current outer isOpen
    obtain ⟨next, adds, rfl⟩ := Option.map_eq_some_iff.1 writes
    have same := OpenDeclaration.openElements_of_addText (eq_ok_of_toOption adds)
    exact .of_eq (by simp [openElements, isOpen, same]) rfl rfl
  · cases writes
    exact .of_eq rfl rfl rfl

theorem leads_openInclude (opens : sketch.openInclude attributes = some later) :
    sketch.Leads later [.opened "include"] := by
  intro free
  unfold openInclude at opens
  split at opens
  · cases opens
  · rename_i idle
    obtain ⟨path, -, rfl⟩ := Option.map_eq_some_iff.1 opens
    refine ⟨free, fun rest ends => ?_⟩
    rw [Ends, Bool.eq_false_iff.2 idle]
    exact .openInclude ends

/-- An element that is put on top of those that are open. -/
theorem Leads.of_opened (ordinary : name ≠ "include")
    (opened : later.openElements = name :: sketch.openElements)
    (blocks : "include" ∉ sketch.blocks → "include" ∉ later.blocks)
    (pending : later.pendingInclude = sketch.pendingInclude) :
    sketch.Leads later [.opened name] := by
  intro free
  refine ⟨blocks free, fun rest ends => .opened ordinary ?_⟩
  rwa [Ends, opened, pending] at ends

/-- The element on top is taken off. -/
theorem Leads.of_closed (ordinary : name ≠ "include")
    (closed : sketch.openElements = name :: later.openElements)
    (blocks : "include" ∉ sketch.blocks → "include" ∉ later.blocks)
    (pending : later.pendingInclude = sketch.pendingInclude) :
    sketch.Leads later [.closed name] := by
  intro free
  refine ⟨blocks free, fun rest ends => ?_⟩
  rw [Ends, closed]
  refine .closed ordinary ?_
  rwa [Ends, pending] at ends

theorem leads_onOpen (opens : sketch.onOpen put name attributes = some later) :
    sketch.Leads later [.opened name] := by
  unfold onOpen at opens
  split at opens
  · rename_i current outer isOpen
    obtain ⟨⟨next, opened⟩, inside, rfl⟩ := Option.map_eq_some_iff.1 opens
    obtain ⟨ordinary, same⟩ := OpenDeclaration.openElements_of_openInside (eq_ok_of_toOption inside)
    refine .of_opened ordinary ?_ id rfl
    simp only [List.flatMap_append, List.flatMap_singleton] at same
    simp [openElements, isOpen, ← List.append_assoc, same]
  rename_i isOpen
  split at opens
  · rename_i keyword found
    obtain ⟨started, starts, rfl⟩ := Option.map_eq_some_iff.1 opens
    obtain rfl := Keyword.element_of_ofElement? found
    refine .of_opened (Keyword.element_ne_include keyword) ?_ id rfl
    simp [openElements, isOpen, OpenDeclaration.openElements_of_start (eq_ok_of_toOption starts)]
  split at opens
  · rename_i include_
    subst include_
    exact leads_openInclude opens
  · rename_i ordinary
    cases opens
    refine .of_opened ordinary ?_ ?_ rfl
    · simp [openElements, openBlock, write, isOpen]
    · simp [openBlock, Ne.symm ordinary]

theorem leads_closeBlock (outside : sketch.declarations = [])
    (closes : sketch.closeBlock name = some later) : sketch.Leads later [.closed name] := by
  unfold closeBlock at closes
  split at closes
  · rename_i block outer isOpen
    split at closes <;> cases closes
    rename_i same
    subst same
    intro free
    refine Leads.of_closed ?_ ?_ ?_ rfl free
    · rintro rfl
      exact free (isOpen ▸ List.mem_cons_self)
    · simp [openElements, outside, isOpen]
    · simp [isOpen]
  · cases closes

theorem leads_onClose (closes : sketch.onClose put name = some (answer, later)) :
    sketch.Leads later [.closed name] := by
  unfold onClose at closes
  split at closes
  · rename_i current outer isOpen
    obtain ⟨left, inside, same⟩ := Option.map_eq_some_iff.1 closes
    obtain ⟨ordinary, opened⟩ := OpenDeclaration.openElements_of_closeInside (eq_ok_of_toOption inside)
    cases left <;> cases same <;>
      exact .of_closed ordinary (by simp [openElements, isOpen, write, opened]) id rfl
  rename_i isOpen
  have block : (sketch.closeBlock name).map (none, ·) = some (answer, later) →
      sketch.Leads later [.closed name] := by
    intro closes
    obtain ⟨_, closes, same⟩ := Option.map_eq_some_iff.1 closes
    cases same
    exact leads_closeBlock isOpen closes
  split at closes
  · rename_i path pending
    split at closes
    · rename_i include_
      cases closes
      subst include_
      intro free
      refine ⟨free, fun rest ends => ?_⟩
      rw [Ends, pending]
      exact .closeInclude ends
    · exact block closes
  · exact block closes

theorem leads_receive {event : Event}
    (received : sketch.receive put event = some (answer, later)) :
    sketch.Leads later (bracketsOf event) := by
  cases event with
  | text content line =>
    obtain ⟨_, writes, same⟩ := Option.map_eq_some_iff.1 received
    cases same
    exact leads_onText writes
  | opened name attributes line selfClosing =>
    obtain ⟨middle, opens, closes⟩ := Option.bind_eq_some_iff.1 received
    cases selfClosing with
    | true => exact (leads_onOpen opens).trans (leads_onClose closes)
    | false =>
      cases closes
      exact leads_onOpen opens
  | closed name line => exact leads_onClose received

/-- Nothing is left to be closed when nothing is open. -/
theorem Closed.ends (closed : sketch.Closed) : sketch.Ends [] := by
  obtain ⟨blocks, declarations, pending⟩ := closed
  rw [Ends, openElements, blocks, declarations, pending]
  exact .nil

end Sketch

/-! ## Trees of events -/

namespace Assembly

/-- Receives events one after the other, up to the first that is refused. -/
def receiveAll (events : List Event) : HandlerM Assembly Unit :=
  events.forM fun event => do
    let _ ← handler.receive event
    return

/-- The tree that events make. -/
def assemble (events : List Event) (line : Nat) : Except ParseError Tree :=
  match receiveAll events empty with
  | (.error cause, _) => .error cause
  | (.ok (), assembly) => assembly.finish line

variable {assembly after : Assembly} {events : List Event}

/-- The elements of events that are all accepted pair up with what is open before and after. -/
theorem pairs_of_closed (ordered : assembly.Ordered) (free : "include" ∉ assembly.blocks.map Prod.snd)
    (received : receiveAll events assembly = (.ok (), after))
    (closed : (after.sketch List.singleton).Closed) :
    (assembly.sketch List.singleton).Ends (events.flatMap bracketsOf) := by
  induction events generalizing assembly with
  | nil =>
    cases received
    exact closed.ends
  | cons event rest ih =>
    obtain ⟨_, middle, first, further⟩ := Attempt.run_bind_eq_ok_iff.1 received
    obtain ⟨answer, _, accepted, same⟩ := Attempt.run_bind_eq_ok_iff.1 first
    cases same
    obtain ⟨ordered, sketched⟩ := sketch_of_receive List.singleton ordered accepted
    obtain ⟨free, begins⟩ := Sketch.leads_receive sketched free
    exact begins _ (ih ordered free further)

end Assembly

/-- Events that make a tree are balanced apart from `include` elements. With these they are balanced
just if whatever stands between the opening of an `include` element and its closing is. -/
theorem balanced_of_assemble {events : List Event} {line : Nat} {tree : Tree}
    (assembles : Assembly.assemble events line = .ok tree) :
    let brackets := events.flatMap bracketsOf
    Balanced (brackets.filter Bracket.isOrdinary) ∧ (Balanced brackets ↔ IncludesBalanced brackets) := by
  unfold Assembly.assemble at assembles
  split at assembles
  · cases assembles
  · rename_i after received
    obtain ⟨closed, -⟩ := (Assembly.finish_eq_ok_iff List.singleton).1 assembles
    have pairs := Assembly.pairs_of_closed Assembly.ordered_empty List.not_mem_nil received closed
    exact ⟨pairs.closes_ordinary, pairs.closes_iff⟩

/-- A configuration in a block, behind a file that is included there. -/
def exEvents : List Event :=
  [.opened "a" .empty 1 false, .opened "include" (.ofList [("path", "f")]) 1 false,
    .closed "include" 1, .opened "config" (.ofList [("name", "a")]) 2 false,
    .opened "description" .empty 2 false, .text "d" 2, .closed "description" 2, .closed "config" 2,
    .closed "a" 3]

theorem exEvents_balanced : ∃ tree, Assembly.assemble exEvents 3 = .ok tree ∧
    Balanced ((exEvents.flatMap bracketsOf).filter Bracket.isOrdinary) ∧
      (Balanced (exEvents.flatMap bracketsOf) ↔ IncludesBalanced (exEvents.flatMap bracketsOf)) := by
  have assembled : (Assembly.assemble exEvents 3).isOk := by decide +kernel
  cases outcome : Assembly.assemble exEvents 3 with
  | error cause => rw [outcome] at assembled; cases assembled
  | ok tree => exact ⟨tree, rfl, balanced_of_assemble outcome⟩

/-- An element that is opened inside of an `include` element and closed behind it. -/
def exCrossing : List Event :=
  [.opened "include" (.ofList [("path", "f")]) 1 false, .opened "a" .empty 1 false,
    .closed "include" 1, .closed "a" 1]

/-- Events can make a tree without being balanced. -/
theorem exCrossing_not_balanced :
    (Assembly.assemble exCrossing 1).isOk ∧ ¬ Balanced (exCrossing.flatMap bracketsOf) := by
  refine ⟨by decide +kernel, fun balanced => ?_⟩
  obtain ⟨_, same, -⟩ := balanced.of_opened.of_opened.of_closed
  exact absurd same (by simp)

end ConfigTemplate.Document
