import ConfigTemplate.Proofs.Run.Failure

/-!
# Histories of a run

A run may be driven by any calls in any order, and the files may change between them. What a call
comes to is what the parts come to that it makes, so a history of calls is read as a history of parts.

Results:
1. `disciplined_of`: what a single part does to the stage and the files.
2. `madeOf_parts`: a call does what its parts do.
3. `Linked.advanced`: the parts that have led on are the first ones in the order, each made once.
4. `history_disciplined`: all this for every history.
-/

namespace ConfigTemplate.Run

/-- Something that is called, with the run and the files that it finds, what comes of it, and the run
and the files that it leaves. -/
structure Called (α : Type) where
  what : α
  before : Run
  found : Store
  result : Except RunError Reply
  after : Run
  left : Store

/-- What becomes of a call. -/
def Called.of {α : Type} (call : α → Call) (what : α) (run : Run) (store : Store) : Called α where
  what
  before := run
  found := store
  result := (answer (call what) (run, store)).1
  after := (answer (call what) (run, store)).2.1
  left := (answer (call what) (run, store)).2.2

/-- A history of calls. Each finds the run that the one before has left, and files of its own. -/
def history : List (Call × Store) → Run → List (Called Call)
  | [], _ => []
  | (call, store) :: rest, run =>
    let called := Called.of id call run store
    called :: history rest called.after

/-- Makes parts one after the other, up to the first that fails. -/
def attempts : List Part → Run → Store → List (Called Part)
  | [], _, _ => []
  | part :: rest, run, store =>
    let called := Called.of Part.call part run store
    called :: if called.result.isOk then attempts rest called.after called.left else []

/-- The parts that a call is to make: itself, or else all of them, unless the destination exists and
must be left alone. -/
def Call.parts (run : Run) (store : Store) : Call → List Part
  | .step taken => [.step taken]
  | .commit => [.commit]
  | .complete =>
    if run.request.overwrite = .no ∧ store.pathExists run.outputPath then [] else Part.all

namespace Called

/-- The parts that a call makes. -/
def parts (called : Called Call) : List (Called Part) :=
  attempts (called.what.parts called.before called.found) called.before called.found

/-- What becomes of a call is what becomes of its last part. Without any part it leaves the stage and
the files as they were. -/
structure MadeOf (called : Called Call) (parts : List (Called Part)) : Prop where
  none : parts = [] → called.after.stage = called.before.stage ∧ called.left = called.found
  last : ∀ last, parts.getLast? = some last → called.after = last.after ∧ called.left = last.left ∧
    ∀ cause, called.result = .error cause ↔ last.result = .error cause

/-- What a part may do to the stage and the files. -/
structure Disciplined (called : Called Part) : Prop where
  /-- At its stage it leads to the next one. -/
  leads : called.result.isOk → called.before.stage = called.what.stage →
    called.after.stage.position = called.before.stage.position + 1
  /-- At another stage it fails, and changes nothing. -/
  refuses : called.what ≠ .step .parse → called.before.stage ≠ called.what.stage →
    called.result = .error (.outOfOrder called.what.stage called.before.stage) ∧
      called.after = called.before ∧ called.left = called.found
  /-- Only parsing succeeds also later, and then does nothing, whatever the files are. -/
  rests : called.what = .step .parse → called.before.stage ≠ .unparsed →
    called.result = .ok .done ∧ called.after = called.before ∧ called.left = called.found ∧
      ∀ store, answer (.step .parse) (called.before, store) = (.ok .done, called.before, store)
  /-- When it fails, the stage is kept. -/
  fails : ∀ cause, called.result = .error cause → called.after.stage = called.before.stage
  /-- Files change only in a commit that succeeds. -/
  writes : called.left ≠ called.found → called.what = .commit ∧ called.result.isOk

/-- Whether a part leads to another stage. -/
def advances (called : Called Part) : Bool := called.after.stage ≠ called.before.stage

end Called

/-- Parts that lead from one stage to another, each from where the one before has led. -/
inductive Linked : Stage → List (Called Part) → Stage → Prop
  | nil {stage : Stage} : Linked stage [] stage
  | cons {called : Called Part} {rest : List (Called Part)} {first last : Stage}
      (starts : called.before.stage = first) (further : Linked called.after.stage rest last) :
      Linked first (called :: rest) last

/-! ## Single parts -/

theorem disciplined_of (part : Part) (run : Run) (store : Store) :
    (Called.of Part.call part run store).Disciplined := by
  rcases answers : answer part.call (run, store) with ⟨result, after, left⟩
  have called : Called.of Part.call part run store = ⟨part, run, store, result, after, left⟩ := by
    rw [Called.of, answers]
  rw [called]
  refine ⟨?leads, ?refuses, ?rests, ?fails, ?writes⟩
  case leads =>
    intro succeeds reached
    cases result with
    | error cause => cases succeeds
    | ok reply => exact Part.position_of_ok reached answers
  case refuses =>
    intro (later : part ≠ .step .parse) (wrong : run.stage ≠ part.stage)
    rw [Part.refuses store later wrong] at answers
    cases answers
    exact ⟨rfl, rfl, rfl⟩
  case rests =>
    intro (parses : part = .step .parse) (done : run.stage ≠ .unparsed)
    subst parses
    have rests : ∀ store, answer (.step .parse) (run, store) = (.ok .done, run, store) := by
      intro store
      rw [answer_step, Step.perform, parse_rests store done]
    cases answers.symm.trans (rests store)
    exact ⟨rfl, rfl, rfl, rests⟩
  case fails =>
    intro cause (failed : result = .error cause)
    subst failed
    exact (Part.stage_of_error answers).1
  case writes =>
    intro (changed : left ≠ store)
    cases result with
    | error cause => exact absurd (Part.stage_of_error answers).2 changed
    | ok reply =>
      cases part with
      | step taken => exact absurd (answer_step_eq_ok answers).2.2 changed
      | commit => exact ⟨rfl, rfl⟩

theorem disciplined_attempts (parts : List Part) (run : Run) (store : Store) :
    ∀ called ∈ attempts parts run store, called.Disciplined := by
  induction parts generalizing run store with
  | nil => simp [attempts]
  | cons part rest ih =>
    intro called member
    rw [attempts] at member
    rcases List.mem_cons.1 member with rfl | later
    · exact disciplined_of part run store
    · split at later
      · exact ih _ _ _ later
      · cases later

namespace Called

variable {called : Called Part}

theorem Disciplined.at_stage (disciplined : called.Disciplined) (succeeds : called.result.isOk)
    (later : called.what ≠ .step .parse) : called.before.stage = called.what.stage := by
  by_contra wrong
  rw [(disciplined.refuses later wrong).1] at succeeds
  cases succeeds

theorem Disciplined.of_advances (disciplined : called.Disciplined) (advances : called.advances) :
    called.before.stage = called.what.stage ∧
      called.after.stage.position = called.before.stage.position + 1 := by
  have changed : called.after.stage ≠ called.before.stage := by simpa [Called.advances] using advances
  have succeeds : called.result.isOk := by
    cases failed : called.result with
    | error cause => exact absurd (disciplined.fails cause failed) changed
    | ok reply => rfl
  have reached : called.before.stage = called.what.stage := by
    by_cases parses : called.what = .step .parse
    · by_contra done
      rw [parses] at done
      obtain ⟨-, unchanged, -⟩ := disciplined.rests parses done
      exact changed (congrArg Run.stage unchanged)
    · exact disciplined.at_stage succeeds parses
  exact ⟨reached, disciplined.leads succeeds reached⟩

end Called

/-! ## The parts of a call -/

theorem attempts_single (part : Part) (run : Run) (store : Store) :
    attempts [part] run store = [Called.of Part.call part run store] := by
  rw [attempts]
  split <;> rfl

/-- Steps that are made one after the other come to what they come to in one go. -/
theorem attempts_steps (steps : List Step) (rest : List Part) (run : Run) (store : Store) :
    (∃ cause after made last,
        (steps.forM (Step.perform store) : StepM Unit) run = (.error cause, after) ∧
        attempts (steps.map .step ++ rest) run store = made ++ [last] ∧
        last.result = .error cause ∧ last.after = after ∧ last.left = store) ∨
      ∃ after made, (steps.forM (Step.perform store) : StepM Unit) run = (.ok (), after) ∧
        attempts (steps.map .step ++ rest) run store = made ++ attempts rest after store := by
  induction steps generalizing run with
  | nil => exact .inr ⟨run, [], rfl, rfl⟩
  | cons step steps ih =>
    have first : (step :: steps).forM (Step.perform store) run =
        (step.perform store >>= fun _ => steps.forM (Step.perform store) : StepM Unit) run := rfl
    have answers := answer_step step run store
    rw [first, Attempt.run_bind, List.map_cons, List.cons_append, attempts, Called.of, Part.call,
      answers]
    rcases performs : step.perform store run with ⟨cause | ⟨⟩, middle⟩
    · exact .inl ⟨cause, middle, [], _, rfl, rfl, rfl, rfl, rfl⟩
    · rcases ih middle with ⟨cause, after, made, last, fails, same, failed⟩ |
        ⟨after, made, performs, same⟩
      · exact .inl ⟨cause, after, _ :: made, last, fails, congrArg _ same, failed⟩
      · exact .inr ⟨after, _ :: made, performs, congrArg _ same⟩

theorem answer_complete (run : Run) (store : Store) :
    answer .complete (run, store) =
      match complete (run, store) with
      | (.ok report, state) => (.ok (.completed report), state)
      | (.error cause, state) => (.error cause, state) := by
  show (complete >>= fun report => pure (.completed report) : FileStepM Reply) (run, store) = _
  rw [Attempt.run_bind]
  obtain ⟨cause | report, state⟩ := complete (run, store) <;> rfl

/-- A call that completes a run does what its parts do. -/
theorem madeOf_complete (run : Run) (store : Store) :
    (Called.of id .complete run store).MadeOf (attempts (Call.complete.parts run store) run store) := by
  have answers := answer_complete run store
  rw [complete_eq] at answers
  rw [Call.parts]
  by_cases skips : run.request.overwrite = .no ∧ store.pathExists run.outputPath
  · rw [if_pos skips] at answers ⊢
    rw [Called.of, id, answers, attempts]
    exact ⟨fun _ => ⟨rfl, rfl⟩, fun _ ends => by cases ends⟩
  · rw [if_neg skips] at answers ⊢
    rw [Part.all]
    rcases attempts_steps Step.all [.commit] run store with
      ⟨cause, after, made, last, fails, same, failed, reached, unwritten⟩ |
      ⟨after, made, performs, same⟩
    · rw [fails] at answers
      rw [same, Called.of, id, answers]
      refine ⟨fun empty => absurd empty (by simp), fun other ends => ?_⟩
      obtain rfl : last = other := by simpa using ends
      rw [failed]
      exact ⟨reached.symm, unwritten.symm, fun _ => by simp⟩
    · have commits := answer_commit after store
      rw [performs] at answers
      dsimp only at answers
      rw [same, attempts_single]
      refine ⟨fun empty => absurd empty (by simp), fun other ends => ?_⟩
      obtain rfl : Called.of Part.call .commit after store = other := by simpa using ends
      rw [Called.of, Called.of, id, Part.call, answers, commits]
      rcases commit (after, store) with ⟨cause | outcome, last, later⟩
      · exact ⟨rfl, rfl, fun _ => by simp⟩
      · exact ⟨rfl, rfl, fun _ => by simp⟩

theorem madeOf_parts (call : Call) (run : Run) (store : Store) :
    (Called.of id call run store).MadeOf (Called.of id call run store).parts := by
  have single (part : Part) :
      (Called.of id part.call run store).MadeOf [Called.of Part.call part run store] := by
    refine ⟨nofun, fun last ends => ?_⟩
    obtain rfl : Called.of Part.call part run store = last := by simpa using ends
    exact ⟨rfl, rfl, fun _ => Iff.rfl⟩
  show Called.MadeOf _ (attempts (call.parts run store) run store)
  cases call with
  | step step =>
    rw [Call.parts, attempts_single]
    exact single (.step step)
  | commit =>
    rw [Call.parts, attempts_single]
    exact single .commit
  | complete => exact madeOf_complete run store

/-! ## Parts in a row -/

namespace Linked

variable {first last : Stage} {front back parts : List (Called Part)}

theorem append {middle : Stage} (before : Linked first front middle)
    (behind : Linked middle back last) : Linked first (front ++ back) last := by
  induction before with
  | nil => exact behind
  | cons starts _ ih => exact .cons starts (ih behind)

theorem split (linked : Linked first (front ++ back) last) :
    ∃ middle, Linked first front middle ∧ Linked middle back last := by
  induction front generalizing first with
  | nil => exact ⟨first, .nil, linked⟩
  | cons called rest ih =>
    cases linked with
    | cons starts further =>
      obtain ⟨middle, before, behind⟩ := ih further
      exact ⟨middle, .cons starts before, behind⟩

/-- The parts that have led on are those that the stage asks for. -/
theorem advanced (linked : Linked first parts last)
    (disciplined : ∀ called ∈ parts, called.Disciplined) :
    Part.all.take first.position ++ (parts.filter Called.advances).map Called.what =
      Part.all.take last.position := by
  induction linked with
  | nil => simp
  | @cons called rest first last starts further ih =>
    subst starts
    have others := ih fun other member => disciplined other (List.mem_cons_of_mem _ member)
    cases advances : called.advances with
    | true =>
      obtain ⟨reached, next⟩ := (disciplined called List.mem_cons_self).of_advances advances
      have own := Part.all_getElem?_position called.what
      rw [← reached] at own
      rw [next, List.take_add_one, own] at others
      rw [List.filter_cons_of_pos advances, List.map_cons]
      simpa using others
    | false =>
      have same : called.after.stage = called.before.stage := by
        simpa [Called.advances] using advances
      rw [same] at others
      rw [List.filter_cons_of_neg (by simp [advances])]
      exact others

/-- Stages are never taken back. -/
theorem position_le (linked : Linked first parts last)
    (disciplined : ∀ called ∈ parts, called.Disciplined) : first.position ≤ last.position := by
  induction linked with
  | nil => exact Nat.le_refl _
  | @cons called rest first last starts further ih =>
    subst starts
    have others := ih fun other member => disciplined other (List.mem_cons_of_mem _ member)
    cases advances : called.advances with
    | true =>
      obtain ⟨-, next⟩ := (disciplined called List.mem_cons_self).of_advances advances
      omega
    | false =>
      have same : called.after.stage = called.before.stage := by
        simpa [Called.advances] using advances
      rwa [same] at others

end Linked

theorem linked_attempts (parts : List Part) (run : Run) (store : Store) :
    Linked run.stage (attempts parts run store)
      ((attempts parts run store).getLast?.elim run.stage fun last => last.after.stage) := by
  induction parts generalizing run store with
  | nil => exact .nil
  | cons part rest ih =>
    rw [attempts]
    refine .cons rfl ?_
    split
    · have further := ih (Called.of Part.call part run store).after
        (Called.of Part.call part run store).left
      revert further
      cases attempts rest _ _ with
      | nil => exact id
      | cons next others => rw [List.getLast?_cons_cons]; exact id
    · exact .nil

theorem Called.MadeOf.stage_eq {called : Called Call} {parts : List (Called Part)}
    (made : called.MadeOf parts) :
    called.after.stage = parts.getLast?.elim called.before.stage fun last => last.after.stage := by
  cases ends : parts.getLast? with
  | none => exact (made.none (List.getLast?_eq_none_iff.1 ends)).1
  | some last => rw [(made.last last ends).1]; rfl

/-- The parts of a history lead from stage to stage. -/
theorem linked_history (calls : List (Call × Store)) (run : Run) :
    ∃ last, Linked run.stage ((history calls run).flatMap Called.parts) last := by
  induction calls generalizing run with
  | nil => exact ⟨run.stage, .nil⟩
  | cons first rest ih =>
    obtain ⟨call, store⟩ := first
    obtain ⟨last, others⟩ := ih (Called.of id call run store).after
    have own := linked_attempts (call.parts run store) run store
    rw [(madeOf_parts call run store).stage_eq] at others
    exact ⟨last, own.append others⟩

theorem madeOf_history (calls : List (Call × Store)) (run : Run) :
    ∀ called ∈ history calls run, called.MadeOf called.parts := by
  induction calls generalizing run with
  | nil => simp [history]
  | cons first rest ih =>
    intro called member
    rcases List.mem_cons.1 member with rfl | later
    · exact madeOf_parts _ _ _
    · exact ih _ called later

/-- Whatever calls are made on a run, with whatever files, each does what its parts do, and each part
leads to the next stage, rests, or fails and keeps the stage. The parts that have led on are always the
first ones in the order, each made once. A commit that succeeds comes after all steps, and no commit
succeeds after it. -/
theorem history_disciplined (request : Request) (directory : String)
    (calls : List (Call × Store)) :
    let made := history calls (start request directory)
    let parts := made.flatMap Called.parts
    (∀ called ∈ made, called.MadeOf called.parts) ∧ (∀ part ∈ parts, part.Disciplined) ∧
      (∃ last, Linked .unparsed parts last) ∧
      ∀ front part back, parts = front ++ part :: back →
        (front.filter Called.advances).map Called.what = Part.all.take part.before.stage.position ∧
        (part.what = .commit → part.result.isOk →
          (front.filter Called.advances).map Called.what = Step.all.map .step ∧
          ∀ later ∈ back, later.what = .commit → later.result.isOk = false) := by
  intro made parts
  have disciplined : ∀ part ∈ parts, part.Disciplined := by
    intro part member
    obtain ⟨called, -, inside⟩ := List.mem_flatMap.1 member
    exact disciplined_attempts _ _ _ part inside
  have linked : ∃ last, Linked .unparsed parts last := linked_history calls (start request directory)
  refine ⟨madeOf_history _ _, disciplined, linked, fun front part back cut => ?_⟩
  obtain ⟨last, linked⟩ := linked
  rw [cut] at linked disciplined
  obtain ⟨_, before, here⟩ := linked.split
  cases here with | cons starts behind => ?_
  subst starts
  have led := before.advanced fun other member => disciplined other (List.mem_append_left _ member)
  refine ⟨led, fun commits succeeds => ?_⟩
  have own : part.Disciplined := disciplined part (by simp)
  have ready : part.before.stage = .outputGenerated := by
    rw [own.at_stage succeeds (by rw [commits]; decide), commits]
    rfl
  have closed : part.after.stage.position = 10 := by
    rw [own.leads succeeds (by rw [ready, commits]; rfl), ready]
    rfl
  constructor
  · rw [ready] at led
    exact led
  · intro later member again
    by_contra succeedsAgain
    have others : later.Disciplined := disciplined later (by simp [member])
    have readyAgain : later.before.stage = .outputGenerated := by
      rw [others.at_stage (by simpa using succeedsAgain) (by rw [again]; decide), again]
      rfl
    -- The stage cannot have gone back from the committed one.
    obtain ⟨inner, outer, rfl⟩ := List.append_of_mem member
    obtain ⟨_, between, there⟩ := behind.split
    cases there with | cons starts _ => ?_
    have kept := between.position_le fun other inside => disciplined other (by simp [inside])
    rw [closed, ← starts, readyAgain] at kept
    exact absurd kept (by decide)

end ConfigTemplate.Run
