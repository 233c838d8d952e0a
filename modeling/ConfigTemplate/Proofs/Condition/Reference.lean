import ConfigTemplate.Condition.Table
import ConfigTemplate.Proofs.Formula.Truth
import Mathlib.Data.List.Chain
import Mathlib.Logic.Relation

/-!
# References between conditions

What the entries of a condition table mean, without any evaluation: which condition refers to which,
when the references are closed, free of loops and shallow, and which values the entries determine.

Results:
1. `HasValue.functional`: a condition has at most one value.
2. `Table.Determined.closed` and `Table.Determined.acyclic`: if every entry has a value, then the
   references lead to entries only, and never in a loop.
3. `Table.Determined.solves` and `HasValue.eq_of_solves`: the values are the only assignment that
   gives every entry its value, or the value of its formula.
-/

namespace ConfigTemplate

namespace Condition

namespace Table

/-! ## References -/

/-- The condition still has its formula. -/
def IsPending (table : Table) (name : String) : Prop :=
  ∃ formula, table.entries.get? name = some (.pending formula)

/-- The formula of the first condition mentions the second one. -/
def Refers (table : Table) (name other : String) : Prop :=
  ∃ formula, table.entries.get? name = some (.pending formula) ∧ other ∈ formula.conditions

/-- A reference from one pending condition to another. -/
def Links (table : Table) (name other : String) : Prop :=
  table.Refers name other ∧ table.IsPending other

/-- Every condition that a formula mentions has an entry. -/
def Closed (table : Table) : Prop := ∀ name other, table.Refers name other → table.contains other

/-- The references between pending conditions make no loop. -/
def Acyclic (table : Table) : Prop := ∀ name, ¬ Relation.TransGen table.Links name name

/-- A chain of references passes through at most so many pending conditions. -/
def Shallow (table : Table) (limit : Nat) : Prop :=
  ∀ chain : List String, chain.IsChain table.Links → chain.length ≤ limit

/-! ## Values -/

/-- An assignment gives every entry the value that it has, or the truth of its formula under the
assignment itself. -/
structure Solves (table : Table) (value : String → Bool) : Prop where
  resolved : ∀ name truth, table.entries.get? name = some (.resolved truth) → value name = truth
  pending : ∀ name formula, table.entries.get? name = some (.pending formula) →
    value name = formula.truth value

/-- The entries determine the value of a condition. -/
inductive HasValue (table : Table) : String → Bool → Prop
  | resolved {name : String} {truth : Bool}
      (found : table.entries.get? name = some (.resolved truth)) : HasValue table name truth
  | pending {name : String} {formula : Formula} {value : String → Bool}
      (found : table.entries.get? name = some (.pending formula))
      (operands : ∀ other ∈ formula.conditions, HasValue table other (value other)) :
      HasValue table name (formula.truth value)

/-- The entries determine the value of each of them. -/
def Determined (table : Table) : Prop :=
  ∀ name, table.contains name → ∃ truth, table.HasValue name truth

variable {table : Table} {name : String} {first second : Bool}

theorem contains_iff : table.contains name ↔ ∃ entry, table.entries.get? name = some entry :=
  NameMap.contains_iff

theorem mem_names_iff : name ∈ table.names ↔ table.contains name := NameMap.mem_names_iff

theorem pending_inj {left right : Formula}
    (found : table.entries.get? name = some (.pending left))
    (also : table.entries.get? name = some (.pending right)) : left = right := by
  simpa using found.symm.trans also

theorem IsPending.contains (pending : table.IsPending name) : table.contains name := by
  obtain ⟨formula, found⟩ := pending
  exact contains_iff.2 ⟨_, found⟩

theorem HasValue.contains {truth : Bool} (has : table.HasValue name truth) :
    table.contains name := by
  cases has with
  | resolved found => exact contains_iff.2 ⟨_, found⟩
  | pending found operands => exact contains_iff.2 ⟨_, found⟩

/-- Conditions that refer to others are pending. -/
theorem Refers.isPending {other : String} (refers : table.Refers name other) :
    table.IsPending name := by
  obtain ⟨formula, found, -⟩ := refers
  exact ⟨formula, found⟩

/-- Every assignment that solves the table agrees with the values that the entries determine. -/
theorem HasValue.eq_of_solves {truth : Bool} {value : String → Bool}
    (has : table.HasValue name truth) (solves : table.Solves value) : value name = truth := by
  induction has with
  | resolved found => exact solves.resolved _ _ found
  | pending found operands ih =>
    rw [solves.pending _ _ found]
    exact Formula.truth_congr ih

theorem HasValue.functional (has : table.HasValue name first)
    (other : table.HasValue name second) : first = second := by
  induction has generalizing second with
  | resolved found =>
    cases other with
    | resolved also => simpa using found.symm.trans also
    | pending also => simp [found] at also
  | pending found operands ih =>
    cases other with
    | resolved also => simp [found] at also
    | pending also others =>
      obtain rfl := pending_inj found also
      exact Formula.truth_congr fun inner member => ih inner member (others inner member)

/-- The value that the entries determine, and false where they determine none. -/
noncomputable def meaning (table : Table) (name : String) : Bool :=
  open Classical in decide (table.HasValue name true)

theorem HasValue.meaning_eq {truth : Bool} (has : table.HasValue name truth) :
    table.meaning name = truth := by
  cases truth with
  | true => simp [meaning, has]
  | false =>
    have notTrue : ¬ table.HasValue name true :=
      fun other => Bool.noConfusion (has.functional other)
    simp [meaning, notTrue]

/-- No chain of references from a condition with a value goes on forever. -/
theorem HasValue.accessible {truth : Bool} (has : table.HasValue name truth) :
    Acc (fun inner outer => table.Links outer inner) name := by
  induction has with
  | resolved found =>
    refine ⟨_, fun inner link => ?_⟩
    obtain ⟨⟨formula, also, -⟩, -⟩ := link
    simp [found] at also
  | pending found operands ih =>
    refine ⟨_, fun inner link => ?_⟩
    obtain ⟨⟨formula, also, member⟩, -⟩ := link
    obtain rfl := pending_inj found also
    exact ih inner member

/-- The conditions to which one with a value refers have values. -/
theorem HasValue.of_refers {truth : Bool} {other : String} (has : table.HasValue name truth)
    (refers : table.Refers name other) : ∃ value, table.HasValue other value := by
  obtain ⟨formula, found, member⟩ := refers
  cases has with
  | resolved also => simp [found] at also
  | pending also operands =>
    obtain rfl := pending_inj found also
    exact ⟨_, operands other member⟩

theorem not_accessible_of_loop {α : Type} {relation : α → α → Prop} {start : α}
    (accessible : Acc relation start) : ¬ relation start start := by
  induction accessible with
  | intro start _ ih => exact fun loop => ih start loop loop

/-- A condition with a value is in no loop. -/
theorem HasValue.not_loop {truth : Bool} (has : table.HasValue name truth) :
    ¬ Relation.TransGen table.Links name name := fun loop =>
  not_accessible_of_loop has.accessible.transGen (Relation.transGen_swap.2 loop)

namespace Determined

theorem closed (determined : table.Determined) : table.Closed := by
  intro name other refers
  obtain ⟨truth, has⟩ := determined name refers.isPending.contains
  obtain ⟨value, operand⟩ := has.of_refers refers
  exact operand.contains

theorem acyclic (determined : table.Determined) : table.Acyclic := by
  intro name loop
  have pending : table.IsPending name := by
    cases loop with
    | single link => exact link.2
    | tail _ link => exact link.2
  obtain ⟨truth, has⟩ := determined name pending.contains
  exact has.not_loop loop

theorem solves (determined : table.Determined) : table.Solves table.meaning := by
  refine ⟨fun name truth found => (HasValue.resolved found).meaning_eq,
    fun name formula found => ?_⟩
  obtain ⟨truth, has⟩ := determined name (contains_iff.2 ⟨_, found⟩)
  rw [has.meaning_eq]
  cases has with
  | resolved also => simp [found] at also
  | pending also operands =>
    obtain rfl := pending_inj found also
    exact Formula.truth_congr fun other member => (operands other member).meaning_eq.symm

end Determined

end Table

end Condition

end ConfigTemplate
