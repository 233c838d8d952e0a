import ConfigTemplate.Proofs.Condition.Failure
import ConfigTemplate.Proofs.Condition.Journal
import Mathlib.Data.List.Nodup

/-!
# Which conditions are entered

As long as nothing fails, every condition that was entered is active or has a value
(`Journal.Accounted`). An active condition is not entered again because that would close a loop, and a
condition with a value is not evaluated at all. So no condition is entered twice. A failure breaks the
first property, since the conditions that are left have no value then, but nothing is entered after
it.

Results:
1. `keeps_journalWithin`: evaluation keeps the discipline of a journal, also when it fails.
2. `evaluateAll_enters_once`: evaluating the whole table enters every pending condition at most once,
   and exactly once if it succeeds. At every moment the active conditions are distinct, at most 64,
   and without a value.
-/

namespace ConfigTemplate

open Evaluation (Change)

/-! ## The states that are passed -/

/-- The active conditions are distinct, not more than allowed, and without a value. -/
structure Evaluation.Orderly (state : Evaluation) : Prop where
  distinct : state.active.Nodup
  bounded : state.active.length ≤ state.limit
  unrecorded : ∀ name ∈ state.active, state.recorded.get? name = none

namespace Evaluation.Orderly

variable {state : Evaluation} {name : String}

theorem start (limit : Nat) : (Evaluation.start limit).Orderly :=
  ⟨.nil, Nat.zero_le _, fun _ member => (List.not_mem_nil member).elim⟩

theorem enter (orderly : state.Orderly) (fresh : name ∉ state.active)
    (room : state.active.length < state.limit) (unrecorded : state.recorded.get? name = none) :
    ((Change.enter name).apply state).Orderly :=
  ⟨List.nodup_cons.2 ⟨fresh, orderly.distinct⟩, room,
    List.forall_mem_cons.2 ⟨unrecorded, orderly.unrecorded⟩⟩

theorem leave (orderly : state.Orderly) : (Change.leave.apply state).Orderly := by
  refine ⟨orderly.distinct.tail, ?_, fun name member => ?_⟩
  · exact Nat.le_trans (by simp [Change.apply, Evaluation.leave]) orderly.bounded
  · exact orderly.unrecorded name (List.mem_of_mem_tail member)

theorem record (orderly : state.Orderly) (left : name ∉ state.active) (value : Bool) :
    ((Change.record name value).apply state).Orderly := by
  refine ⟨orderly.distinct, orderly.bounded, fun other member => ?_⟩
  have different : other ≠ name := fun same => left (same ▸ member)
  simp only [Change.apply, Evaluation.record, NameMap.get?_insert, if_neg different]
  exact orderly.unrecorded other member

end Evaluation.Orderly

/-! ## The discipline of a journal -/

variable {first : Evaluation}

namespace Journal

/-- A condition that was entered is active until it has a value. -/
def Accounted (journal : Journal first) : Prop :=
  ∀ name ∈ journal.entered, journal.current.recorded.get? name = none →
    name ∈ journal.current.active

/-- Pending conditions only were entered, none of them twice, only they are active or have values, and
every state was orderly. -/
structure Disciplined (table : Condition.Table) (journal : Journal first) : Prop where
  once : journal.entered.Nodup
  pending : ∀ name ∈ journal.entered, table.IsPending name
  active : ∀ name ∈ journal.current.active, name ∈ journal.entered
  recorded : ∀ name value, journal.current.recorded.get? name = some value →
    name ∈ journal.entered
  orderly : ∀ state, journal.Passed state → state.Orderly

variable {table : Condition.Table} {journal : Journal first} {name : String}

theorem disciplined_empty (limit : Nat) :
    (empty : Journal (.start limit)).Disciplined table where
  once := .nil
  pending := fun _ member => (List.not_mem_nil member).elim
  active := fun _ member => (List.not_mem_nil member).elim
  recorded := fun name value found => by simp [Evaluation.start] at found
  orderly := fun state passed => by
    rw [passed_empty] at passed
    exact passed ▸ .start limit

theorem accounted_empty : (empty : Journal first).Accounted :=
  fun _ member => (List.not_mem_nil member).elim

theorem Accounted.enter (accounted : journal.Accounted) :
    (journal.add (.enter name)).Accounted := by
  intro other member unrecorded
  rw [current_add] at unrecorded ⊢
  rw [entered_add_enter, List.mem_append] at member
  rcases member with earlier | now
  · exact List.mem_cons_of_mem _ (accounted other earlier unrecorded)
  · obtain rfl := List.mem_singleton.1 now
    exact List.mem_cons_self

namespace Disciplined

/-- Every change adds one state to those that were passed. -/
theorem orderly_add (disciplined : journal.Disciplined table) {change : Change}
    (orderly : (change.apply journal.current).Orderly) {state : Evaluation}
    (passed : (journal.add change).Passed state) : state.Orderly := by
  rcases (journal.passed_add change).1 passed with earlier | rfl
  · exact disciplined.orderly state earlier
  · exact orderly

theorem enter (disciplined : journal.Disciplined table) (accounted : journal.Accounted)
    (pending : table.IsPending name) (unrecorded : journal.current.recorded.get? name = none)
    {inside : Evaluation} (entered : journal.current.enter name = .ok inside) :
    (journal.add (.enter name)).Disciplined table := by
  obtain ⟨fresh, room⟩ := Condition.Table.fresh_of_enter entered
  have new : name ∉ journal.entered := fun again => fresh (accounted name again unrecorded)
  constructor
  case once =>
    rw [entered_add_enter]
    refine List.nodup_append.2 ⟨disciplined.once, List.pairwise_singleton _ _, ?_⟩
    intro other earlier last isLast same
    obtain rfl := List.mem_singleton.1 isLast
    exact new (same ▸ earlier)
  case pending =>
    rw [entered_add_enter]
    exact List.forall_mem_append.2 ⟨disciplined.pending, by simpa using pending⟩
  case active =>
    intro other member
    rw [current_add] at member
    rw [entered_add_enter]
    rcases List.mem_cons.1 member with rfl | outer
    · exact List.mem_append_right _ List.mem_cons_self
    · exact List.mem_append_left _ (disciplined.active other outer)
  case recorded =>
    intro other value found
    rw [current_add] at found
    rw [entered_add_enter]
    exact List.mem_append_left _ (disciplined.recorded other value found)
  case orderly =>
    have orderly := disciplined.orderly _ journal.passed_current
    exact fun state => disciplined.orderly_add (orderly.enter fresh room unrecorded)

theorem leave (disciplined : journal.Disciplined table) :
    (journal.add .leave).Disciplined table := by
  constructor
  case once =>
    rw [entered_add_leave]
    exact disciplined.once
  case pending =>
    rw [entered_add_leave]
    exact disciplined.pending
  case active =>
    intro other member
    rw [current_add] at member
    rw [entered_add_leave]
    exact disciplined.active other (List.mem_of_mem_tail member)
  case recorded =>
    intro other value found
    rw [current_add] at found
    rw [entered_add_leave]
    exact disciplined.recorded other value found
  case orderly =>
    have orderly := disciplined.orderly _ journal.passed_current
    exact fun state => disciplined.orderly_add orderly.leave

theorem record (disciplined : journal.Disciplined table) (entered : name ∈ journal.entered)
    (left : name ∉ journal.current.active) (value : Bool) :
    (journal.add (.record name value)).Disciplined table := by
  constructor
  case once =>
    rw [entered_add_record]
    exact disciplined.once
  case pending =>
    rw [entered_add_record]
    exact disciplined.pending
  case active =>
    intro other member
    rw [current_add] at member
    rw [entered_add_record]
    exact disciplined.active other member
  case recorded =>
    intro other truth found
    rw [current_add] at found
    simp only [Change.apply, Evaluation.record, NameMap.get?_insert] at found
    rw [entered_add_record]
    split at found
    · rename_i own
      exact own ▸ entered
    · exact disciplined.recorded other truth found
  case orderly =>
    have orderly := disciplined.orderly _ journal.passed_current
    exact fun state => disciplined.orderly_add (orderly.record left value)

end Disciplined

end Journal

/-! ## Evaluation keeps the discipline -/

namespace Condition.Table

variable {table : Table} {α β : Type} {name : String}

/-- A computation keeps the discipline of a journal. If it has a result, then it also gives back the
active conditions and leaves no condition unaccounted for. -/
def Keeps (table : Table) (computation : Attempt EvalError (Journal first) α) : Prop :=
  ∀ before outcome after, before.Disciplined table → before.Accounted →
    computation before = (outcome, after) →
      after.Disciplined table ∧ ∀ value, outcome = .ok value →
        after.Accounted ∧ after.current.active = before.current.active

theorem keeps_pure (value : α) :
    table.Keeps (pure value : Attempt EvalError (Journal first) α) := by
  intro before outcome after disciplined accounted same
  cases same
  exact ⟨disciplined, fun _ _ => ⟨accounted, rfl⟩⟩

theorem keeps_bind {opening : Attempt EvalError (Journal first) α}
    {rest : α → Attempt EvalError (Journal first) β} (opens : table.Keeps opening)
    (goesOn : ∀ value, table.Keeps (rest value)) : table.Keeps (opening >>= rest) := by
  intro before outcome after disciplined accounted same
  rw [Attempt.run_bind] at same
  split at same
  · rename_i value between run
    obtain ⟨betweenDisciplined, found⟩ := opens _ _ _ disciplined accounted run
    obtain ⟨betweenAccounted, sameActive⟩ := found value rfl
    obtain ⟨afterDisciplined, results⟩ :=
      goesOn value _ _ _ betweenDisciplined betweenAccounted same
    refine ⟨afterDisciplined, fun result finds => ?_⟩
    obtain ⟨afterAccounted, alsoActive⟩ := results result finds
    exact ⟨afterAccounted, alsoActive.trans sameActive⟩
  · rename_i cause between run
    cases same
    exact ⟨(opens _ _ _ disciplined accounted run).1, fun result finds => nomatch finds⟩

theorem keeps_formula {value : String → Attempt EvalError (Journal first) Bool}
    (keeps : ∀ name, table.Keeps (value name)) (formula : Formula) :
    table.Keeps (formula.evaluate value) := by
  induction formula with
  | constant truth => exact keeps_pure truth
  | condition name => exact keeps name
  | negation operand ih => exact keeps_bind ih fun truth => keeps_pure _
  | binary connective left right ihLeft ihRight =>
    exact keeps_bind ihLeft fun _ => keeps_bind ihRight fun _ => keeps_pure _

/-- The condition that was entered is recorded when it is left, before another one is entered. -/
theorem accounted_of_recorded {journal : Journal first} {active : List String}
    (accounted : journal.Accounted) (innermost : journal.current.active = name :: active)
    (value : Bool) : ((journal.add .leave).add (.record name value)).Accounted := by
  intro other member unrecorded
  rw [Journal.entered_add_record, Journal.entered_add_leave] at member
  simp only [Journal.current_add, Change.apply, Evaluation.record, Evaluation.leave,
    NameMap.get?_insert, innermost, List.tail_cons] at unrecorded ⊢
  split at unrecorded
  · cases unrecorded
  · rename_i different
    have stillActive := accounted other member unrecorded
    rw [innermost] at stillActive
    exact (List.mem_cons.1 stillActive).resolve_left different

/-- A pending condition without a value can be entered. -/
theorem keeps_entering {body : Attempt EvalError (Journal first) Bool} (keeps : table.Keeps body)
    (pending : table.IsPending name) {before after : Journal first}
    {outcome : Except EvalError Bool} (disciplined : before.Disciplined table)
    (accounted : before.Accounted) (unrecorded : before.current.recorded.get? name = none)
    (run : journalEntering name body before = (outcome, after)) :
    after.Disciplined table ∧ ∀ value, outcome = .ok value →
      after.Accounted ∧ after.current.active = before.current.active := by
  unfold journalEntering at run
  split at run
  · cases run
    exact ⟨disciplined, fun value finds => nomatch finds⟩
  · rename_i inside entered
    have inner := disciplined.enter accounted pending unrecorded entered
    split at run
    · rename_i truth reached found
      cases run
      obtain ⟨reachedDisciplined, results⟩ := keeps _ _ _ inner accounted.enter found
      obtain ⟨reachedAccounted, sameActive⟩ := results truth rfl
      rw [Journal.current_add] at sameActive
      have isEntered : name ∈ reached.entered :=
        reachedDisciplined.active name (sameActive ▸ List.mem_cons_self)
      have left : name ∉ (reached.add .leave).current.active := by
        simp only [Journal.current_add, Change.apply, Evaluation.leave, sameActive, List.tail_cons]
        exact (fresh_of_enter entered).1
      refine ⟨reachedDisciplined.leave.record ?_ left truth, fun value finds => ?_⟩
      · rw [Journal.entered_add_leave]
        exact isEntered
      · refine ⟨accounted_of_recorded reachedAccounted sameActive truth, ?_⟩
        simp [Change.apply, Evaluation.record, Evaluation.leave, sameActive]
    · rename_i cause reached fails
      cases run
      exact ⟨(keeps _ _ _ inner accounted.enter fails).1.leave, fun value finds => nomatch finds⟩

theorem keeps_lookup {body : Formula → Attempt EvalError (Journal first) Bool} (name : String)
    (keeps : ∀ formula, table.Keeps (body formula)) : table.Keeps (table.journalLookup name body) := by
  intro before outcome after disciplined accounted run
  unfold journalLookup at run
  split at run
  · cases run
    exact ⟨disciplined, fun value finds => nomatch finds⟩
  · cases run
    exact ⟨disciplined, fun _ _ => ⟨accounted, rfl⟩⟩
  · rename_i formula found
    split at run
    · cases run
      exact ⟨disciplined, fun _ _ => ⟨accounted, rfl⟩⟩
    · rename_i unrecorded
      exact keeps_entering (keeps formula) ⟨formula, found⟩ disciplined accounted unrecorded run

/-- Finding the value of a condition keeps the discipline, whatever the conditions refer to. -/
theorem keeps_journalWithin (table : Table) (room : Nat) (name : String) :
    table.Keeps (table.journalWithin room name : Attempt EvalError (Journal first) Bool) := by
  induction room generalizing name with
  | zero =>
    refine keeps_lookup name fun formula => ?_
    intro before outcome after disciplined accounted run
    cases run
    exact ⟨disciplined, fun value finds => nomatch finds⟩
  | succ room ih => exact keeps_lookup name fun formula => keeps_formula ih formula

theorem keeps_journalOf (table : Table) (name : String) :
    table.Keeps (table.journalOf name : Attempt EvalError (Journal first) Bool) :=
  fun before => table.keeps_journalWithin _ name before

/-- A pass keeps the discipline up to its end, or up to the condition that fails. -/
theorem disciplined_journalNames {names : List String} {before : Journal first}
    (disciplined : before.Disciplined table) (accounted : before.Accounted) :
    (table.journalNames names before).2.Disciplined table := by
  induction names generalizing before with
  | nil => exact disciplined
  | cons name rest ih =>
    rw [journalNames]
    split
    · rename_i value after run
      obtain ⟨afterDisciplined, found⟩ :=
        table.keeps_journalOf name _ _ _ disciplined accounted run
      exact ih afterDisciplined (found value rfl).1
    · rename_i cause after run
      exact (table.keeps_journalOf name _ _ _ disciplined accounted run).1

theorem disciplined_journalAll (table : Table) : table.journalAll.2.Disciplined table := by
  rw [journalAll_journal]
  exact disciplined_journalNames (Journal.disciplined_empty _) Journal.accounted_empty

/-- A condition that gets a value was entered for it. -/
theorem entered_of_evaluateAll {after : Table} (run : table.evaluateAll = .ok after)
    (pending : table.IsPending name) : name ∈ table.journalAll.2.entered := by
  obtain ⟨-, -, records⟩ :=
    evaluateNames_records (table.sound_start _) (evaluateNames_eq_current run)
  obtain ⟨value, recorded⟩ := (records name (mem_names_iff.2 pending.contains)).2 pending
  exact table.disciplined_journalAll.recorded name value recorded

/-- Evaluating all conditions enters only pending ones, each at most once, and each exactly once if it
succeeds. At every moment the active conditions are distinct, at most 64, and without a value. -/
theorem evaluateAll_enters_once (table : Table) :
    table.journalAll.1 = table.evaluateAll ∧
    (∀ name, table.journalAll.2.entered.count name ≤ 1) ∧
    (∀ name ∈ table.journalAll.2.entered, table.IsPending name) ∧
    (∀ after, table.evaluateAll = .ok after →
      ∀ name, table.IsPending name → table.journalAll.2.entered.count name = 1) ∧
    ∀ state, table.journalAll.2.Passed state →
      state.active.Nodup ∧ state.active.length ≤ 64 ∧
        ∀ name ∈ state.active, state.recorded.get? name = none := by
  have disciplined := table.disciplined_journalAll
  refine ⟨table.journalAll_outcome, List.nodup_iff_count_le_one.1 disciplined.once,
    disciplined.pending, fun after run name pending => ?_, fun state passed => ?_⟩
  · exact List.nodup_iff_count_eq_one.1 disciplined.once name (entered_of_evaluateAll run pending)
  · have orderly := disciplined.orderly state passed
    have limit : state.limit = 64 := Journal.limit_of_passed passed
    exact ⟨orderly.distinct, limit ▸ orderly.bounded, orderly.unrecorded⟩

/-- Two conditions refer to the same one, and a third one to both. -/
def exDiamond : Table :=
  (((Table.empty.insertConstant "d" true).insert "c" (.pending (.negation (.condition "d")))).insert
    "b" (.pending (.binary .xor (.condition "d") (.condition "d")))).insert
    "a" (.pending (.binary .or (.condition "b") (.condition "c")))

/-- The condition that is shared is entered once. -/
theorem exDiamond_enters_once :
    exDiamond.journalAll.2.entered = ["a", "b", "d", "c"] ∧
    exDiamond.journalAll.2.entered.count "d" = 1 :=
  ⟨by decide +kernel, (evaluateAll_enters_once exDiamond).2.2.2.1 _ rfl "d" ⟨_, rfl⟩⟩

end Condition.Table

end ConfigTemplate
