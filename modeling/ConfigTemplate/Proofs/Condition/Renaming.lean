import ConfigTemplate.Proofs.Condition.Failure
import Mathlib.Data.List.Nodup
import Mathlib.Data.Set.List
import Mathlib.Logic.Embedding.Basic
import Mathlib.Logic.Equiv.Basic

/-!
# Renaming conditions

Evaluation starts with the conditions in the order of their names, so a renaming changes where it
starts and which values are known when a reference is followed. It changes no value: references,
loops and the values that the entries determine are renamed along. The limit of the depth is the one
thing that depends on the order, and it does so only if some chain of references is longer.

Results:
1. `hasValue_rename_iff`, `determined_rename_iff` and `deep_rename_iff`: what a table means is
   renamed with it.
2. `evaluateAll_rename`: two results are the same up to the renaming, and a failure on one side only
   is a depth that is exceeded at a long chain.
3. `evaluateAll_rename_long`: for a long chain, the order of the names can decide.
-/

namespace ConfigTemplate

/-! ## Renaming -/

/-- The formula with its conditions renamed. -/
def Formula.rename (f : String → String) : Formula → Formula
  | .constant truth => .constant truth
  | .condition name => .condition (f name)
  | .negation operand => .negation (operand.rename f)
  | .binary connective left right => .binary connective (left.rename f) (right.rename f)

theorem Formula.conditions_rename (f : String → String) (formula : Formula) :
    (formula.rename f).conditions = formula.conditions.map f := by
  induction formula with
  | constant truth => rfl
  | condition name => rfl
  | negation operand ih => exact ih
  | binary connective left right ihLeft ihRight =>
    rw [rename, conditions, ihLeft, ihRight, conditions, List.map_append]

theorem Formula.truth_rename (f : String → String) (value : String → Bool) (formula : Formula) :
    (formula.rename f).truth value = formula.truth (value ∘ f) := by
  induction formula with
  | constant truth => rfl
  | condition name => rfl
  | negation operand ih => rw [rename, truth, truth, ih]
  | binary connective left right ihLeft ihRight => rw [rename, truth, truth, ihLeft, ihRight]

namespace NameMap

variable {α : Type}

/-- The map with its names renamed. -/
def renameKeys (f : String → String) (m : NameMap α) : NameMap α :=
  m.entries.foldr (fun entry renamed => renamed.insert (f entry.1) entry.2) empty

theorem get?_renameKeys (f : String ↪ String) (m : NameMap α) (name : String) :
    (m.renameKeys f).get? (f name) = m.get? name := by
  suffices same : ∀ entries : List (String × α),
      (entries.foldr (fun entry renamed => renamed.insert (f entry.1) entry.2) empty).get?
        (f name) = findEntry name entries from same m.entries
  intro entries
  induction entries with
  | nil => rfl
  | cons head tail ih =>
    rw [List.foldr_cons, get?_insert, ih, findEntry]
    exact if_congr (f.injective.eq_iff.trans eq_comm) rfl rfl

/-- The renamed map has renamed names only. -/
theorem exists_of_get?_renameKeys {f : String ↪ String} {m : NameMap α} {renamed : String}
    {value : α} (found : (m.renameKeys f).get? renamed = some value) :
    ∃ name, f name = renamed ∧ m.get? name = some value := by
  have inRange : ∃ name, f name = renamed := by
    unfold renameKeys at found
    generalize m.entries = entries at found
    induction entries with
    | nil => cases found
    | cons head tail ih =>
      rw [List.foldr_cons, get?_insert] at found
      split at found
      · rename_i same
        exact ⟨head.1, same.symm⟩
      · exact ih found
  obtain ⟨name, rfl⟩ := inRange
  exact ⟨name, rfl, (get?_renameKeys f m name).symm.trans found⟩

end NameMap

namespace Condition

/-- The entry with the conditions of its formula renamed. -/
def Entry.rename (f : String → String) : Entry → Entry
  | .pending formula => .pending (formula.rename f)
  | .resolved truth => .resolved truth

namespace Table

/-- The table with its conditions renamed, in the names of the entries and in their formulas. -/
def rename (table : Table) (f : String → String) : Table :=
  ⟨(table.entries.mapValues fun _ entry => entry.rename f).renameKeys f⟩

variable {table : Table} {f : String ↪ String} {name renamed : String}

theorem get?_rename (table : Table) (f : String ↪ String) (name : String) :
    (table.rename f).entries.get? (f name) = (table.entries.get? name).map (Entry.rename f) := by
  rw [rename, NameMap.get?_renameKeys, NameMap.get?_mapValues]

theorem exists_of_get?_rename {entry : Entry}
    (found : (table.rename f).entries.get? renamed = some entry) :
    ∃ name before, f name = renamed ∧ table.entries.get? name = some before ∧
      before.rename f = entry := by
  obtain ⟨name, same, inTable⟩ := NameMap.exists_of_get?_renameKeys found
  rw [NameMap.get?_mapValues, Option.map_eq_some_iff] at inTable
  obtain ⟨before, own, changed⟩ := inTable
  exact ⟨name, before, same, own, changed⟩

theorem get?_rename_resolved {truth : Bool} :
    (table.rename f).entries.get? (f name) = some (.resolved truth) ↔
      table.entries.get? name = some (.resolved truth) := by
  rw [get?_rename]
  rcases table.entries.get? name with _ | formula | own <;> simp [Entry.rename]

theorem get?_rename_pending {formula : Formula} :
    (table.rename f).entries.get? (f name) = some (.pending formula) ↔
      ∃ before, table.entries.get? name = some (.pending before) ∧ before.rename f = formula := by
  rw [get?_rename]
  rcases table.entries.get? name with _ | before | own <;> simp [Entry.rename]

theorem contains_rename_iff : (table.rename f).contains (f name) ↔ table.contains name := by
  rw [contains_iff, contains_iff, get?_rename]
  simp [Option.map_eq_some_iff]

theorem exists_of_contains_rename (known : (table.rename f).contains renamed) :
    ∃ name, f name = renamed ∧ table.contains name := by
  obtain ⟨entry, found⟩ := contains_iff.1 known
  obtain ⟨name, before, same, own, -⟩ := exists_of_get?_rename found
  exact ⟨name, same, contains_iff.2 ⟨before, own⟩⟩

/-! ## What a renamed table means -/

theorem hasValue_rename {truth : Bool} (has : table.HasValue name truth) :
    (table.rename f).HasValue (f name) truth := by
  induction has with
  | resolved found => exact .resolved (get?_rename_resolved.2 found)
  | @pending name formula value found operands ih =>
    have own : ∀ other ∈ formula.conditions,
        (table.rename f).meaning (f other) = value other :=
      fun other member => (ih other member).meaning_eq
    have same : (formula.rename f).truth (table.rename f).meaning = formula.truth value := by
      rw [Formula.truth_rename]
      exact Formula.truth_congr own
    rw [← same]
    refine .pending (get?_rename_pending.2 ⟨formula, found, rfl⟩) fun other member => ?_
    rw [Formula.conditions_rename] at member
    obtain ⟨before, inFormula, rfl⟩ := List.mem_map.1 member
    rw [own before inFormula]
    exact ih before inFormula

theorem hasValue_of_rename {truth : Bool} (has : (table.rename f).HasValue renamed truth)
    (same : f name = renamed) : table.HasValue name truth := by
  induction has generalizing name with
  | resolved found =>
    subst same
    exact .resolved (get?_rename_resolved.1 found)
  | @pending renamed formula value found operands ih =>
    subst same
    obtain ⟨before, own, rfl⟩ := get?_rename_pending.1 found
    rw [Formula.truth_rename]
    refine .pending own fun other member => ih (f other) ?_ rfl
    rw [Formula.conditions_rename]
    exact List.mem_map_of_mem member

theorem hasValue_rename_iff {truth : Bool} :
    (table.rename f).HasValue (f name) truth ↔ table.HasValue name truth :=
  ⟨fun has => hasValue_of_rename has rfl, hasValue_rename⟩

theorem meaning_rename (table : Table) (f : String ↪ String) (name : String) :
    (table.rename f).meaning (f name) = table.meaning name := by
  unfold meaning
  rw [hasValue_rename_iff]

theorem determined_rename_iff : (table.rename f).Determined ↔ table.Determined := by
  constructor
  · intro determined name known
    obtain ⟨truth, has⟩ := determined (f name) (contains_rename_iff.2 known)
    exact ⟨truth, hasValue_rename_iff.1 has⟩
  · intro determined renamed known
    obtain ⟨name, rfl, own⟩ := exists_of_contains_rename known
    obtain ⟨truth, has⟩ := determined name own
    exact ⟨truth, hasValue_rename has⟩

theorem isPending_rename_iff : (table.rename f).IsPending (f name) ↔ table.IsPending name := by
  constructor
  · rintro ⟨formula, found⟩
    obtain ⟨before, own, -⟩ := get?_rename_pending.1 found
    exact ⟨before, own⟩
  · rintro ⟨formula, found⟩
    exact ⟨_, get?_rename_pending.2 ⟨formula, found, rfl⟩⟩

theorem refers_rename_iff {other : String} :
    (table.rename f).Refers (f name) (f other) ↔ table.Refers name other := by
  constructor
  · rintro ⟨formula, found, member⟩
    obtain ⟨before, own, rfl⟩ := get?_rename_pending.1 found
    rw [Formula.conditions_rename, List.mem_map_of_injective f.injective] at member
    exact ⟨before, own, member⟩
  · rintro ⟨formula, found, member⟩
    refine ⟨_, get?_rename_pending.2 ⟨formula, found, rfl⟩, ?_⟩
    rw [Formula.conditions_rename]
    exact List.mem_map_of_mem member

theorem links_rename_iff {other : String} :
    (table.rename f).Links (f name) (f other) ↔ table.Links name other :=
  and_congr refers_rename_iff isPending_rename_iff

/-- Pending conditions of the renamed table are pending ones of the table under their new names. -/
theorem exists_map_of_pending {chain : List String}
    (pending : ∀ renamed ∈ chain, (table.rename f).IsPending renamed) :
    ∃ before : List String, before.map f = chain := by
  refine Set.mem_range.1 ?_
  rw [Set.range_list_map]
  intro renamed member
  obtain ⟨name, same, -⟩ := exists_of_contains_rename (pending renamed member).contains
  exact ⟨name, same⟩

theorem deep_rename_iff {limit : Nat} : (table.rename f).Deep limit ↔ table.Deep limit := by
  constructor
  · rintro ⟨chain, linked, pending, distinct, long⟩
    obtain ⟨before, rfl⟩ := exists_map_of_pending pending
    refine ⟨before, ?_, ?_, (List.nodup_map_iff f.injective).1 distinct, by simpa using long⟩
    · exact ((List.isChain_map f).1 linked).imp fun _ _ => links_rename_iff.1
    · exact fun name member => isPending_rename_iff.1 (pending _ (List.mem_map_of_mem member))
  · rintro ⟨chain, linked, pending, distinct, long⟩
    refine ⟨chain.map f, ?_, ?_, (List.nodup_map_iff f.injective).2 distinct, by simpa using long⟩
    · exact (List.isChain_map f).2 (linked.imp fun _ _ => links_rename_iff.2)
    · exact List.forall_mem_map.2 fun name member => isPending_rename_iff.2 (pending name member)

/-! ## Evaluating a renamed table -/

theorem rename_withMeaning (table : Table) (f : String ↪ String) :
    (table.rename f).withMeaning = table.withMeaning.rename f := by
  refine congrArg Table.mk (NameMap.ext_get? fun renamed => ?_)
  by_cases inRange : ∃ name, f name = renamed
  · obtain ⟨name, rfl⟩ := inRange
    rw [NameMap.get?_mapValues, get?_rename, NameMap.get?_renameKeys, NameMap.get?_mapValues,
      withMeaning, NameMap.get?_mapValues]
    rcases table.entries.get? name with _ | entry
    · rfl
    · simp [Entry.rename, meaning_rename]
  · have absent : ∀ {m : NameMap Entry}, (m.renameKeys f).get? renamed = none := by
      intro m
      refine Option.eq_none_iff_forall_ne_some.2 fun entry found => inRange ?_
      obtain ⟨name, same, -⟩ := NameMap.exists_of_get?_renameKeys found
      exact ⟨name, same⟩
    rw [NameMap.get?_mapValues, rename, absent, absent]
    rfl

theorem value?_rename (table : Table) (f : String ↪ String) (name : String) :
    (table.rename f).value? (f name) = table.value? name := by
  unfold value?
  rw [get?_rename]
  rcases table.entries.get? name with _ | formula | truth <;> rfl

/-- The results of evaluating a table and its renamed copy belong together. If both have values,
they are the same up to the renaming; if one of them fails alone, then because the limit was reached
at a chain of references that is longer. So without such a chain, one has values if and only if the
other has. -/
theorem evaluateAll_rename (table : Table) (f : String ↪ String) :
    (match table.evaluateAll, (table.rename f).evaluateAll with
      | .ok after, .ok renamed =>
        renamed = after.rename f ∧ ∀ name, renamed.value? (f name) = after.value? name
      | .ok _, .error failure => failure.cause = .depthExceeded 64 ∧ table.Deep 64
      | .error failure, .ok _ => failure.cause = .depthExceeded 64 ∧ table.Deep 64
      | .error _, .error _ => True) ∧
    (¬ table.Deep 64 → ((∃ after, table.evaluateAll = .ok after) ↔
      ∃ renamed, (table.rename f).evaluateAll = .ok renamed)) := by
  rcases run : table.evaluateAll with failure | after <;>
    rcases renamedRun : (table.rename f).evaluateAll with renamedFailure | renamed
  · exact ⟨trivial, fun _ => ⟨fun ⟨_, same⟩ => (nomatch same), fun ⟨_, same⟩ => (nomatch same)⟩⟩
  · have determined := determined_rename_iff.1 (evaluateAll_eq_withMeaning renamedRun).1
    have exceeds := determined.deep_of_evaluateAll run
    exact ⟨exceeds, fun flat => absurd exceeds.2 flat⟩
  · have determined : (table.rename f).Determined :=
      determined_rename_iff.2 (evaluateAll_eq_withMeaning run).1
    obtain ⟨cause, deepRenamed⟩ := determined.deep_of_evaluateAll renamedRun
    have deep := deep_rename_iff.1 deepRenamed
    exact ⟨⟨cause, deep⟩, fun flat => absurd deep flat⟩
  · have same : renamed = after.rename f := by
      rw [(evaluateAll_eq_withMeaning run).2, (evaluateAll_eq_withMeaning renamedRun).2,
        rename_withMeaning]
    refine ⟨⟨same, fun name => by rw [same, value?_rename]⟩, fun _ => ?_⟩
    exact ⟨fun _ => ⟨renamed, rfl⟩, fun _ => ⟨after, rfl⟩⟩

theorem exTable_not_deep : ¬ exTable.Deep 64 := by
  rintro ⟨chain, linked, -, -, long⟩
  have short := exTable_length_le linked
  omega

/-- The value goes with the condition to its new name. -/
theorem exTable_rename : ¬ exTable.Deep 64 ∧
    ∃ after renamed, exTable.evaluateAll = .ok after ∧
      (exTable.rename (Equiv.swap "a" "c").toEmbedding).evaluateAll = .ok renamed ∧
      after.value? "a" = some true ∧ renamed.value? "c" = after.value? "a" := by
  obtain ⟨belong, succeeds⟩ := evaluateAll_rename exTable (Equiv.swap "a" "c").toEmbedding
  obtain ⟨after, run, value⟩ :
      ∃ after, exTable.evaluateAll = .ok after ∧ after.value? "a" = some true := ⟨_, rfl, rfl⟩
  obtain ⟨renamed, renamedRun⟩ := (succeeds exTable_not_deep).1 ⟨after, run⟩
  rw [run, renamedRun] at belong
  exact ⟨exTable_not_deep, after, renamed, run, renamedRun, value, belong.2 "a"⟩

/-- A name for each number below 100, in increasing order. -/
def exName (number : Nat) : String :=
  String.ofList [Char.ofNat (97 + number / 10), Char.ofNat (48 + number % 10)]

/-- A chain of 65 conditions. Its head has the last name; every other condition refers to the one
with the next name, so that evaluation starts one condition behind the head. -/
def exChain : Table :=
  (List.range 63).foldr
    (fun number table =>
      table.insert (exName number) (.pending (.condition (exName (number + 1)))))
    ((Table.empty.insert "z" (.pending (.condition (exName 0)))).insert (exName 63)
      (.pending (.constant true)))

/-- If the head of the chain is given the first name, then evaluation starts with it and fails. -/
theorem exChain_order_matters :
    (∃ after, exChain.evaluateAll = .ok after) ∧
      (exChain.rename (Equiv.swap "z" "A").toEmbedding).evaluateAll =
        .error ⟨"A", .depthExceeded 64⟩ := by
  have succeeds : exChain.evaluateAll.toBool = true := by decide +kernel
  refine ⟨?_, by decide +kernel⟩
  rcases run : exChain.evaluateAll with failure | after
  · simp [run, Except.toBool] at succeeds
  · exact ⟨after, rfl⟩

end Table

end Condition

end ConfigTemplate
