import ConfigTemplate.Proofs.Condition.Evaluation

/-!
# The journal of an evaluation

The state of an evaluation changes in three ways: a condition is entered, it is left, or its value is
recorded. Evaluation can keep a journal of these changes instead of the state. The state is then what
the changes of the journal lead to, and every earlier state is what the first of them lead to.

Results:
1. `follows_journalOf`: evaluation with a journal finds what evaluation finds, and its journal leads
   to the same state.
2. `journalAll_outcome`: this holds for a whole pass over the table, also if it fails.
-/

namespace ConfigTemplate

/-! ## Changes of the state -/

/-- A change of the state of an evaluation. -/
inductive Evaluation.Change where
  | enter (name : String)
  | leave
  | record (name : String) (value : Bool)
deriving DecidableEq, Repr

namespace Evaluation.Change

def apply (state : Evaluation) : Change → Evaluation
  | .enter name => { state with active := name :: state.active }
  | .leave => state.leave
  | .record name value => state.record name value

/-- The condition that the change enters. -/
def entered? : Change → Option String
  | .enter name => some name
  | .leave | .record _ _ => none

theorem limit_apply (state : Evaluation) (change : Change) :
    (change.apply state).limit = state.limit := by
  cases change <;> rfl

end Evaluation.Change

open Evaluation (Change)

/-- The state to which changes lead. -/
def Evaluation.replay (state : Evaluation) (changes : List Change) : Evaluation :=
  changes.foldl Change.apply state

/-- The changes since the first state, the earliest one first. -/
structure Journal (first : Evaluation) where
  changes : List Change
deriving DecidableEq, Repr

namespace Journal

variable {first : Evaluation}

def empty : Journal first := ⟨[]⟩

def add (journal : Journal first) (change : Change) : Journal first := ⟨journal.changes ++ [change]⟩

/-- The state to which the journal leads. -/
def current (journal : Journal first) : Evaluation := first.replay journal.changes

/-- The conditions that were entered, as often as they were. -/
def entered (journal : Journal first) : List String := journal.changes.filterMap Change.entered?

/-- The evaluation was in this state at some moment. -/
def Passed (journal : Journal first) (state : Evaluation) : Prop :=
  ∃ done, done <+: journal.changes ∧ first.replay done = state

variable (journal : Journal first) (change : Change)

@[simp]
theorem current_empty : (empty : Journal first).current = first := rfl

@[simp]
theorem current_add : (journal.add change).current = change.apply journal.current := by
  simp [current, add, Evaluation.replay]

@[simp]
theorem entered_add_enter (name : String) :
    (journal.add (.enter name)).entered = journal.entered ++ [name] := by
  simp [entered, add, Change.entered?]

@[simp]
theorem entered_add_leave : (journal.add .leave).entered = journal.entered := by
  simp [entered, add, Change.entered?]

@[simp]
theorem entered_add_record (name : String) (value : Bool) :
    (journal.add (.record name value)).entered = journal.entered := by
  simp [entered, add, Change.entered?]

theorem passed_current : journal.Passed journal.current := ⟨_, List.prefix_rfl, rfl⟩

theorem passed_empty {state : Evaluation} : (empty : Journal first).Passed state ↔ state = first := by
  constructor
  · rintro ⟨done, before, rfl⟩
    rw [List.prefix_nil.1 before]
    rfl
  · rintro rfl
    exact passed_current _

/-- A change adds the state to which it leads. -/
theorem passed_add {state : Evaluation} :
    (journal.add change).Passed state ↔
      journal.Passed state ∨ state = change.apply journal.current := by
  constructor
  · rintro ⟨done, before, rfl⟩
    rcases List.prefix_concat_iff.1 before with rfl | earlier
    · exact .inr (journal.current_add change)
    · exact .inl ⟨done, earlier, rfl⟩
  · rintro (⟨done, before, rfl⟩ | rfl)
    · exact ⟨done, before.trans (List.prefix_append _ _), rfl⟩
    · exact ⟨_, List.prefix_rfl, journal.current_add change⟩

theorem limit_of_passed {journal : Journal first} {state : Evaluation}
    (passed : journal.Passed state) : state.limit = first.limit := by
  obtain ⟨done, -, rfl⟩ := passed
  induction done using List.reverseRecOn with
  | nil => rfl
  | append_singleton done change ih =>
    simpa [Evaluation.replay, Change.limit_apply] using ih

end Journal

namespace Condition.Table

/-! ## Evaluation with a journal -/

variable {first : Evaluation} {α β : Type}

/-- `entering` with a journal. -/
def journalEntering (name : String) (body : Attempt EvalError (Journal first) Bool) :
    Attempt EvalError (Journal first) Bool := fun journal =>
  match journal.current.enter name with
  | .error cause => (.error cause, journal)
  | .ok _ =>
    match body (journal.add (.enter name)) with
    | (.ok value, after) => (.ok value, (after.add .leave).add (.record name value))
    | (.error cause, after) => (.error cause, after.add .leave)

/-- The value of a condition, found by `body` from its formula unless the value is known. -/
def journalLookup (table : Table) (name : String)
    (body : Formula → Attempt EvalError (Journal first) Bool) :
    Attempt EvalError (Journal first) Bool := fun journal =>
  match table.entries.get? name with
  | none => (.error (.unknownCondition name), journal)
  | some (.resolved value) => (.ok value, journal)
  | some (.pending formula) =>
    match journal.current.recorded.get? name with
    | some value => (.ok value, journal)
    | none => journalEntering name (body formula) journal

/-- `valueWithin` with a journal. -/
def journalWithin (table : Table) : Nat → String → Attempt EvalError (Journal first) Bool
  | 0, name => table.journalLookup name fun _ journal =>
    (.error (.depthExceeded journal.current.limit), journal)
  | room + 1, name => table.journalLookup name fun formula =>
    formula.evaluate (table.journalWithin room)

/-- `valueOf` with a journal. -/
def journalOf (table : Table) (name : String) : Attempt EvalError (Journal first) Bool :=
  fun journal => table.journalWithin (journal.current.limit - journal.current.depth) name journal

/-- `evaluateNames` with a journal. -/
def journalNames (table : Table) :
    List String → Journal first → Except Failure Unit × Journal first
  | [], journal => (.ok (), journal)
  | name :: rest, journal =>
    match table.journalOf name journal with
    | (.ok _, after) => table.journalNames rest after
    | (.error cause, after) => (.error ⟨name, cause⟩, after)

/-- A pass over all conditions, from the start. -/
def journalPass (table : Table) : Except Failure Unit × Journal (.start Evaluation.defaultLimit) :=
  table.journalNames table.names .empty

/-- `evaluateAll` with a journal. -/
def journalAll (table : Table) :
    Except Failure Table × Journal (.start Evaluation.defaultLimit) :=
  match table.journalPass with
  | (.ok _, journal) =>
    (.ok ⟨table.entries.mapValues fun name entry =>
      match journal.current.recorded.get? name with
      | some value => .resolved value
      | none => entry⟩, journal)
  | (.error failure, journal) => (.error failure, journal)

/-! ## The journal leads to the state -/

/-- With a journal a computation finds what the other one finds, and both reach the same state. -/
def Follows (journalled : Attempt EvalError (Journal first) α) (computation : EvalM α) : Prop :=
  ∀ journal, computation journal.current =
    ((journalled journal).1, (journalled journal).2.current)

theorem follows_pure (value : α) :
    Follows (pure value : Attempt EvalError (Journal first) α) (pure value) :=
  fun _ => rfl

theorem follows_bind {opening : Attempt EvalError (Journal first) α} {plainOpening : EvalM α}
    {rest : α → Attempt EvalError (Journal first) β} {plainRest : α → EvalM β}
    (opens : Follows opening plainOpening) (goesOn : ∀ value, Follows (rest value) (plainRest value)) :
    Follows (opening >>= rest) (plainOpening >>= plainRest) := by
  intro journal
  rw [Attempt.run_bind, Attempt.run_bind, opens journal]
  rcases opening journal with ⟨cause | value, between⟩
  · rfl
  · exact goesOn value between

theorem follows_formula {value : String → Attempt EvalError (Journal first) Bool}
    {plain : String → EvalM Bool} (follows : ∀ name, Follows (value name) (plain name))
    (formula : Formula) : Follows (formula.evaluate value) (formula.evaluate plain) := by
  induction formula with
  | constant truth => exact follows_pure truth
  | condition name => exact follows name
  | negation operand ih => exact follows_bind ih fun truth => follows_pure _
  | binary connective left right ihLeft ihRight =>
    exact follows_bind ihLeft fun _ => follows_bind ihRight fun _ => follows_pure _

theorem follows_entering {name : String} {body : Attempt EvalError (Journal first) Bool}
    {plain : EvalM Bool} (follows : Follows body plain) :
    Follows (journalEntering name body) (entering name plain) := by
  intro journal
  unfold journalEntering entering
  cases entered : journal.current.enter name with
  | error cause => rfl
  | ok inside =>
    have same : inside = (journal.add (.enter name)).current := by
      rw [Journal.current_add]
      exact enter_eq_ok entered
    simp only [same, follows (journal.add (.enter name))]
    rcases body (journal.add (.enter name)) with ⟨cause | value, after⟩
    · simp [Change.apply]
    · simp [Change.apply]

theorem follows_lookup {table : Table} {room : Nat} (name : String)
    {body : Formula → Attempt EvalError (Journal first) Bool}
    (follows : ∀ formula, Follows (body formula) (table.formulaWithin room formula)) :
    Follows (table.journalLookup name body) (table.valueWithin room name) := by
  intro journal
  rw [valueWithin_eq]
  unfold journalLookup
  rcases table.entries.get? name with _ | formula | truth
  · rfl
  · rcases recorded : journal.current.recorded.get? name with _ | truth
    · simpa only [recorded] using follows_entering (follows formula) journal
    · rfl
  · rfl

theorem follows_journalWithin (table : Table) (room : Nat) (name : String) :
    Follows (table.journalWithin room name : Attempt EvalError (Journal first) Bool)
      (table.valueWithin room name) := by
  induction room generalizing name with
  | zero => exact follows_lookup name fun formula journal => rfl
  | succ room ih => exact follows_lookup name fun formula => follows_formula ih formula

/-- Evaluation with a journal finds what evaluation finds, and leads to the same state. -/
theorem follows_journalOf (table : Table) (name : String) :
    Follows (table.journalOf name : Attempt EvalError (Journal first) Bool) (table.valueOf name) :=
  fun journal => table.follows_journalWithin _ name journal

/-- A pass with a journal has the outcome of the pass without one, and leads to the same state. -/
theorem evaluateNames_eq_journalNames (table : Table) (names : List String)
    (journal : Journal first) :
    table.evaluateNames names journal.current =
      (table.journalNames names journal).1.map
        fun _ => (table.journalNames names journal).2.current := by
  induction names generalizing journal with
  | nil => rfl
  | cons name rest ih =>
    rw [evaluateNames, journalNames, table.follows_journalOf name journal]
    rcases table.journalOf name journal with ⟨cause | value, after⟩
    · rfl
    · exact ih after

theorem evaluateNames_eq_journalPass (table : Table) :
    table.evaluateNames table.names (.start Evaluation.defaultLimit) =
      table.journalPass.1.map fun _ => table.journalPass.2.current :=
  table.evaluateNames_eq_journalNames table.names .empty

/-- The outcome of evaluating the whole table does not depend on the journal. -/
theorem journalAll_outcome (table : Table) : table.journalAll.1 = table.evaluateAll := by
  unfold journalAll evaluateAll
  rw [evaluateNames_eq_journalPass]
  rcases table.journalPass with ⟨failure | value, journal⟩ <;> rfl

theorem journalAll_journal (table : Table) : table.journalAll.2 = table.journalPass.2 := by
  unfold journalAll
  rcases table.journalPass with ⟨failure | value, journal⟩ <;> rfl

/-- If the evaluation succeeds, then its journal leads to the state with all values. -/
theorem evaluateNames_eq_current {table after : Table} (run : table.evaluateAll = .ok after) :
    table.evaluateNames table.names (.start Evaluation.defaultLimit) =
      .ok table.journalAll.2.current := by
  obtain ⟨state, reached, -⟩ := except_bind_eq_ok run
  rw [reached, journalAll_journal]
  rw [evaluateNames_eq_journalPass] at reached
  cases outcome : table.journalPass.1 with
  | error failure => simp [outcome, Except.map] at reached
  | ok value => simpa [outcome, Except.map] using reached.symm

end Condition.Table

end ConfigTemplate
