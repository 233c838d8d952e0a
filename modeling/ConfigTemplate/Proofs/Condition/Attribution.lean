import ConfigTemplate.Proofs.Condition.Failure
import ConfigTemplate.Run.Steps
import Mathlib.Data.List.Perm.Subperm

/-!
# What a failed evaluation tells

The error of a pass says where the references of the failed condition lead: to a name without an
entry, into a loop, or through more conditions than the limit allows. Apart from the limit, a pass
fails for nothing else, and it fails at the first condition for which there is such a reason.

Results:
1. `attributed_of_traced`: the error of a failed condition is about the references from it.
2. `HasValue.not_stuck` and `Attributed.stuck`: a condition has no value if its references lead to a
   missing name or into a loop.
3. `evaluateAll_attributes`: what a failed pass tells, when one fails, and at which condition.
-/

namespace ConfigTemplate.Condition.Table

variable {table : Table} {name entry : String} {path rest : List String} {limit : Nat}
  {cause : EvalError} {failure : Failure}

/-- The references from a condition lead to a name without an entry, or into a loop. -/
inductive Stuck (table : Table) (name : String) : Prop
  | missing {other : String} (path : Relation.TransGen table.Refers name other)
      (absent : ¬ table.contains other) : Stuck table name
  | loop {other : String} (path : Relation.ReflTransGen table.Refers name other)
      (again : Relation.TransGen table.Refers other other) : Stuck table name

/-- The error is about the references from the condition that failed. -/
inductive Attributed (table : Table) : Failure → Prop
  | unknown {entry name : String} (path : Relation.TransGen table.Refers entry name)
      (absent : ¬ table.contains name) : Attributed table ⟨entry, .unknownCondition name⟩
  /-- The chain starts at the condition, and its last name is the only one that comes twice. -/
  | cyclic {entry last : String} {rest : List String}
      (linked : (entry :: (rest ++ [last])).IsChain table.Refers)
      (distinct : (entry :: rest).Nodup) (again : last ∈ entry :: rest) :
      Attributed table ⟨entry, .cyclicCondition (entry :: (rest ++ [last]))⟩
  /-- The chain passes through one condition more than the limit allows. -/
  | deep {entry : String} {rest : List String}
      (linked : (entry :: rest).IsChain table.Refers)
      (pending : ∀ name ∈ entry :: rest, table.IsPending name)
      (distinct : (entry :: rest).Nodup) (long : (entry :: rest).length = 65) :
      Attributed table ⟨entry, .depthExceeded 64⟩

/-! ## References along a chain -/

theorem transGen_of_isChain_concat {α : Type} {relation : α → α → Prop} {first last : α}
    {middle : List α} (chain : (first :: (middle ++ [last])).IsChain relation) :
    Relation.TransGen relation first last := by
  induction middle generalizing first with
  | nil => exact .single (List.isChain_cons_cons.1 chain).1
  | cons next middle ih =>
    obtain ⟨step, further⟩ := List.isChain_cons_cons.1 chain
    exact .head step (ih further)

theorem isPending_of_transGen {other : String} (path : Relation.TransGen table.Refers name other) :
    table.IsPending name := by
  obtain ⟨middle, refers, -⟩ := Relation.TransGen.head'_iff.1 path
  exact refers.isPending

theorem transGen_links {other : String} (path : Relation.TransGen table.Refers name other)
    (pending : table.IsPending other) : Relation.TransGen table.Links name other := by
  induction path with
  | single refers => exact .single ⟨refers, pending⟩
  | tail _ refers ih => exact (ih refers.isPending).tail ⟨refers, pending⟩

theorem Stuck.isPending (stuck : table.Stuck name) : table.IsPending name := by
  cases stuck with
  | missing path absent => exact isPending_of_transGen path
  | loop path again =>
    rcases Relation.ReflTransGen.cases_head path with rfl | ⟨middle, refers, -⟩
    · exact isPending_of_transGen again
    · exact refers.isPending

/-! ## Conditions without a value -/

/-- The conditions to which one with a value leads have values. -/
theorem HasValue.of_path {truth : Bool} {other : String} (has : table.HasValue name truth)
    (path : Relation.ReflTransGen table.Refers name other) :
    ∃ value, table.HasValue other value := by
  induction path with
  | refl => exact ⟨truth, has⟩
  | tail _ refers ih =>
    obtain ⟨value, has⟩ := ih
    exact has.of_refers refers

theorem HasValue.not_stuck {truth : Bool} (has : table.HasValue name truth) :
    ¬ table.Stuck name := by
  intro stuck
  cases stuck with
  | missing path absent =>
    obtain ⟨value, has⟩ := has.of_path path.to_reflTransGen
    exact absent has.contains
  | loop path again =>
    obtain ⟨value, has⟩ := has.of_path path
    exact has.not_loop (transGen_links again (isPending_of_transGen again))

/-- Unless the limit is the reason, a condition that failed has no value. -/
theorem Attributed.stuck (attributed : table.Attributed failure) (flat : ¬ table.Deep 64) :
    table.Stuck failure.name := by
  cases attributed with
  | unknown path absent => exact .missing path absent
  | @cyclic entry last rest linked distinct again =>
    obtain ⟨before, behind, split⟩ := List.append_of_mem again
    rw [← List.cons_append, split, List.append_assoc] at linked
    have loop : Relation.TransGen table.Refers last last :=
      transGen_of_isChain_concat linked.right_of_append
    refine .loop ?_ loop
    cases before with
    | nil =>
      obtain ⟨rfl, -⟩ := List.cons.inj split
      exact .refl
    | cons first before =>
      obtain ⟨rfl, -⟩ := List.cons.inj split
      exact (transGen_of_isChain_concat (List.isChain_split.1 linked).1).to_reflTransGen
  | deep linked pending distinct long =>
    refine absurd ⟨_, ?_, pending, distinct, Nat.lt_of_lt_of_eq (by decide) long.symm⟩ flat
    exact linked.imp_of_mem_imp fun name other _ member refers => ⟨refers, pending other member⟩

/-! ## The error of a pass -/

/-- A traced path, read from its start. -/
theorem reverse_of_suffix {active : List String} (behind : [entry] <:+ name :: active)
    (linked : (name :: active).IsChain table.MentionedBy) :
    ∃ rest, (name :: active).reverse = entry :: rest ∧ (entry :: rest).IsChain table.Refers := by
  obtain ⟨front, same⟩ := behind
  have reversed : (name :: active).reverse = entry :: front.reverse := by
    rw [← same, List.reverse_append]
    rfl
  exact ⟨front.reverse, reversed, reversed ▸ List.isChain_reverse.2 linked⟩

theorem attributed_of_traced (traced : table.TracedFrom 64 [entry] cause)
    (known : table.contains entry) : table.Attributed ⟨entry, cause⟩ := by
  obtain ⟨failing, inside, behind, linked, trail, blames⟩ := traced
  obtain ⟨rest, reversed, refers⟩ := reverse_of_suffix behind linked
  have whole : inside.reverse ++ [failing] = entry :: rest := by
    rw [← reversed, List.reverse_cons]
  cases blames with
  | unknown absent =>
    have unknown : ¬ table.contains failing := by
      intro present
      obtain ⟨value, found⟩ := contains_iff.1 present
      cases absent.symm.trans found
    cases front : inside.reverse with
    | nil =>
      rw [front] at whole
      obtain ⟨rfl, -⟩ := List.cons.inj whole
      exact absurd known unknown
    | cons first middle =>
      rw [front] at whole
      obtain ⟨rfl, rfl⟩ := List.cons.inj whole
      exact .unknown (transGen_of_isChain_concat refers) unknown
  | cyclic again =>
    cases front : inside.reverse with
    | nil => simp [List.reverse_eq_nil_iff.1 front] at again
    | cons first middle =>
      rw [front] at whole
      obtain ⟨rfl, rfl⟩ := List.cons.inj whole
      rw [reversed]
      refine .cyclic refers ?_ ?_
      · rw [← front]
        exact (List.reverse_perm inside).nodup_iff.2 trail.distinct
      · rw [← front, List.mem_reverse]
        exact again
  | deep pending fresh full =>
    have long : 65 ≤ (entry :: rest).length := by
      rw [← reversed, List.length_reverse]
      exact Nat.succ_le_succ full
    have all : ∀ name ∈ entry :: rest, table.IsPending name := by
      intro name member
      rw [← reversed, List.mem_reverse] at member
      exact List.forall_mem_cons.2 ⟨pending, trail.pending⟩ name member
    have distinct : (entry :: rest).Nodup := by
      rw [← reversed]
      exact (List.reverse_perm _).nodup_iff.2 (List.nodup_cons.2 ⟨fresh, trail.distinct⟩)
    have start : (entry :: rest).take 65 = entry :: rest.take 64 := rfl
    have refers : (entry :: rest.take 64).IsChain table.Refers := start ▸ refers.take 65
    refine .deep refers ?_ ?_ ?_
    · intro name member
      exact all name (List.mem_of_mem_take (start ▸ member))
    · exact start ▸ distinct.sublist (List.take_sublist 65 _)
    · rw [← start, List.length_take, Nat.min_eq_left long]

/-- The conditions before the one at which a pass fails have values. -/
theorem evaluateNames_before {names : List String} {before : Evaluation}
    (sound : table.Sound before) (run : table.evaluateNames names before = .error failure) :
    ∃ done rest, names = done ++ failure.name :: rest ∧
      ∀ name ∈ done, ∃ truth, table.HasValue name truth := by
  induction names generalizing before with
  | nil => cases run
  | cons first names ih =>
    rw [evaluateNames] at run
    split at run
    · rename_i truth between found
      obtain ⟨betweenSound, -, has⟩ := table.yields_valueOf first _ _ _ sound found
      obtain ⟨done, rest, rfl, values⟩ := ih betweenSound run
      refine ⟨first :: done, rest, rfl, ?_⟩
      exact List.forall_mem_cons.2 ⟨⟨truth, has truth rfl⟩, values⟩
    · cases run
      exact ⟨[], names, rfl, fun name member => (List.not_mem_nil member).elim⟩

theorem pairwise_names (table : Table) : table.names.Pairwise (· < ·) :=
  List.pairwise_map.2 table.entries.increasing

/-- A pass over all conditions fails at the first one that has no value. -/
theorem least_of_evaluateAll {other : String} (run : table.evaluateAll = .error failure)
    (stuck : table.Stuck other) : failure.name ≤ other := by
  obtain ⟨done, rest, split, values⟩ :=
    evaluateNames_before (table.sound_start _) (evaluateNames_of_evaluateAll run)
  have member : other ∈ done ++ failure.name :: rest := by
    rw [← split]
    exact mem_names_iff.2 stuck.isPending.contains
  have increasing : (failure.name :: rest).Pairwise (· < ·) :=
    (List.pairwise_append.1 (split ▸ table.pairwise_names)).2.1
  rcases List.mem_append.1 member with early | late
  · obtain ⟨truth, has⟩ := values other early
    exact absurd stuck has.not_stuck
  · rcases List.mem_cons.1 late with rfl | behind
    · exact String.le_refl _
    · have less : failure.name < other := (List.pairwise_cons.1 increasing).1 other behind
      exact String.not_lt.1 fun greater => String.lt_irrefl _ (String.lt_trans less greater)

/-- If evaluation of all conditions fails, then the step of a run does, and nothing changes. -/
theorem evaluateConditions_of_evaluateAll {run : Run} (reached : run.stage = .treeValidated)
    (fails : run.conditions.evaluateAll = .error failure) :
    Run.evaluateConditions run = (.error (.evaluationFailed failure.name failure.cause), run) := by
  have expected : Run.expect .treeValidated run = (.ok (), run) := by
    simp only [Run.expect, Attempt.run_get_bind, reached, ne_eq, not_true, if_false]
    rfl
  rw [Run.evaluateConditions, Attempt.run_bind, expected]
  dsimp only
  rw [Attempt.run_get_bind, Attempt.run_bind, Attempt.run_ofExcept, fails]
  rfl

/-- A failed evaluation is about the references from the condition that failed, and leaves the table
of the run as it is. If no chain of references is longer than the limit, then evaluation fails
exactly if some condition leads to a missing name or into a loop, and at the least such condition. -/
theorem evaluateAll_attributes (table : Table) :
    (∀ failure, table.evaluateAll = .error failure →
      table.contains failure.name ∧ table.Attributed failure ∧
      ∀ run : Run, run.stage = .treeValidated → run.conditions = table →
        Run.evaluateConditions run =
          (.error (.evaluationFailed failure.name failure.cause), run)) ∧
    (¬ table.Deep 64 →
      ((∃ failure, table.evaluateAll = .error failure) ↔
        ∃ name, table.IsPending name ∧ table.Stuck name) ∧
      ∀ failure, table.evaluateAll = .error failure →
        table.IsPending failure.name ∧ table.Stuck failure.name ∧
          ∀ other, table.IsPending other → table.Stuck other → failure.name ≤ other) := by
  have attributes : ∀ failure, table.evaluateAll = .error failure →
      table.contains failure.name ∧ table.Attributed failure := by
    intro failure run
    obtain ⟨known, traced⟩ := evaluateAll_fails run
    exact ⟨known, attributed_of_traced traced known⟩
  constructor
  · intro failure fails
    refine ⟨(attributes failure fails).1, (attributes failure fails).2, ?_⟩
    rintro run reached rfl
    exact evaluateConditions_of_evaluateAll reached fails
  · intro flat
    have sticks : ∀ failure, table.evaluateAll = .error failure → table.Stuck failure.name :=
      fun failure fails => (attributes failure fails).2.stuck flat
    refine ⟨⟨?_, ?_⟩, ?_⟩
    · rintro ⟨failure, fails⟩
      exact ⟨failure.name, (sticks failure fails).isPending, sticks failure fails⟩
    · rintro ⟨name, pending, stuck⟩
      cases run : table.evaluateAll with
      | error failure => exact ⟨failure, rfl⟩
      | ok after =>
        obtain ⟨truth, has⟩ := (evaluateAll_eq_withMeaning run).1 name pending.contains
        exact absurd stuck has.not_stuck
    · intro failure fails
      refine ⟨(sticks failure fails).isPending, sticks failure fails, ?_⟩
      intro other _ stuck
      exact least_of_evaluateAll fails stuck

/-! ## A loop behind a condition -/

/-- A table with few conditions has no long chains. -/
theorem not_deep_of_size_le (few : table.size ≤ limit) : ¬ table.Deep limit := by
  rintro ⟨chain, -, pending, distinct, long⟩
  have within : chain ⊆ table.names :=
    fun name member => mem_names_iff.2 (pending name member).contains
  have most : chain.length ≤ table.names.length := (List.subperm_of_subset distinct within).length_le
  rw [names, NameMap.names, List.length_map] at most
  exact absurd (Nat.lt_of_lt_of_le long most) (Nat.not_lt.2 few)

/-- The second condition refers to the third one, which is in a loop with the fourth one. -/
def exLoop : Table :=
  (((Table.empty.insert "a" (.pending (.constant true))).insert "b"
    (.pending (.negation (.condition "c")))).insert "c"
      (.pending (.binary .and (.condition "a") (.condition "d")))).insert "d"
        (.pending (.condition "c"))

theorem exLoop_attributes :
    exLoop.evaluateAll = .error ⟨"b", .cyclicCondition ["b", "c", "d", "c"]⟩ ∧
      ¬ exLoop.Deep 64 ∧ exLoop.Stuck "b" ∧ ∀ other, exLoop.Stuck other → "b" ≤ other := by
  have fails : exLoop.evaluateAll = .error ⟨"b", .cyclicCondition ["b", "c", "d", "c"]⟩ := by
    decide +kernel
  have flat : ¬ exLoop.Deep 64 := not_deep_of_size_le (by decide)
  obtain ⟨-, stuck, least⟩ := ((evaluateAll_attributes exLoop).2 flat).2 _ fails
  exact ⟨fails, flat, stuck, fun other also => least other also.isPending also⟩

end ConfigTemplate.Condition.Table
