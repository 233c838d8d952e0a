import ConfigTemplate.Proofs.Condition.Evaluation
import ConfigTemplate.Proofs.Document.Parsed
import ConfigTemplate.Proofs.Run.Filtering
import ConfigTemplate.Proofs.Run.History
import ConfigTemplate.Proofs.Run.Seeding

/-!
# Conditions are decided

A condition without a value counts as false. No run takes it so: once the conditions have been
evaluated, every condition that a run can ask for has a value. The reason is an invariant that links
the tree, the catalog and the condition table (`Kept`): seeding enters the conditions of the
catalog, validation finds those of the blocks, and evaluation gives a value to all of them.

Results:
1. `Step.kept_of_ok` and `Step.kept_of_error`: every step keeps the invariant, whether it succeeds
   or fails.
2. `answer_kept` and `history_kept`: so does every call, and every history of calls.
3. `history_decides`: in every history, the conditions that a run can ask for have values once they
   have been evaluated.
-/

namespace ConfigTemplate

/-- The condition is a configuration, a derived condition or a rule of the catalog. -/
inductive Catalog.HasCondition (catalog : Catalog) : String → Prop
  | configuration {key : String} {configuration : Configuration}
      (found : catalog.configurations.get? key = some configuration) :
      HasCondition catalog configuration.name
  | define {define : NamedFormula} (member : define ∈ catalog.defines) :
      HasCondition catalog define.name
  | rule {rule : NamedFormula} (member : rule ∈ catalog.rules) : HasCondition catalog rule.name

namespace Condition.Table

variable {table after : Table} {name : String}

/-- No condition of the table has been evaluated. -/
def AllPending (table : Table) : Prop := ∀ name, table.contains name → table.IsPending name

theorem allPending_empty : empty.AllPending := by
  intro name known
  cases known

theorem AllPending.insert (pending : table.AllPending) (name : String) (formula : Formula) :
    (table.insert name (.pending formula)).AllPending := by
  intro other known
  have inserted := table.entries.get?_insert name other (.pending formula)
  by_cases same : other = name
  · exact ⟨formula, inserted.trans (if_pos same)⟩
  · obtain ⟨own, found⟩ := pending other ((Run.contains_insert.1 known).resolve_left same)
    exact ⟨own, (inserted.trans (if_neg same)).trans found⟩

/-- Evaluation gives a value to every condition of the table. -/
theorem resolved_of_evaluateAll (run : table.evaluateAll = .ok after)
    (known : table.contains name) :
    ∃ truth, after.entries.get? name = some (.resolved truth) := by
  obtain ⟨determined, rfl⟩ := evaluateAll_eq_withMeaning run
  exact (settled_withMeaning determined).resolved name known

theorem contains_of_evaluateAll (run : table.evaluateAll = .ok after) :
    after.contains name ↔ table.contains name := by
  obtain ⟨determined, rfl⟩ := evaluateAll_eq_withMeaning run
  rw [← mem_names_iff, ← mem_names_iff, (settled_withMeaning determined).names]

end Condition.Table

namespace Run

open Document (Content Node NodeId Tree)

variable {run after : Run} {store left : Store} {cause : RunError}

/-! ## The invariant -/

/-- Whether a run asks for the value of a condition: to emit a block of its tree, to check a rule or
to build a property. The other conditions of the catalog are those that formulas can refer to. -/
inductive Concerns (run : Run) : String → Prop
  | block {id : NodeId} {node : Node} {name : String} (attached : run.tree.Attached id)
      (found : run.tree.node? id = some node) (block : node.content = .block name) :
      Concerns run name
  | declared {name : String} (declared : run.catalog.HasCondition name) : Concerns run name
  | owner {property : DeclaredProperty} {name : String} (member : property ∈ run.catalog.properties)
      (scope : property.scope = some name) : Concerns run name

/-- What holds at a stage of the tree, the catalog and the conditions of a run. -/
structure KeptAt (stage : Stage) (tree : Tree) (catalog : Catalog) (conditions : Condition.Table) :
    Prop where
  listed : ∃ lists, tree.Listed lists
  tidy : stage = .parsed → ∃ F, tree.Tidy F
  owned : 2 ≤ stage.position → ∀ property ∈ catalog.properties, ∀ owner,
    property.scope = some owner → catalog.HasCondition owner
  pending : stage.position ≤ 5 → conditions.AllPending
  seeded : 3 ≤ stage.position → ∀ name, catalog.HasCondition name → conditions.contains name
  blocks : 5 ≤ stage.position → ∀ id node name, tree.Attached id → tree.node? id = some node →
    node.content = .block name → conditions.contains name
  evaluated : 6 ≤ stage.position → ∃ seeded : Condition.Table,
    seeded.AllPending ∧ seeded.evaluateAll = .ok conditions

/-- What holds of a run at its stage. -/
def Kept (run : Run) : Prop := KeptAt run.stage run.tree run.catalog run.conditions

theorem kept_start (request : Request) (directory : String) : (start request directory).Kept where
  listed := ⟨_, Document.Tree.listed_empty⟩
  tidy := nofun
  owned := fun late => absurd late (by decide : ¬ 2 ≤ Stage.unparsed.position)
  pending := fun _ => Condition.Table.allPending_empty
  seeded := fun late => absurd late (by decide : ¬ 3 ≤ Stage.unparsed.position)
  blocks := fun late => absurd late (by decide : ¬ 5 ≤ Stage.unparsed.position)
  evaluated := fun late => absurd late (by decide : ¬ 6 ≤ Stage.unparsed.position)

/-- Behind the evaluation, every condition that a run asks for has a value. -/
theorem Kept.resolved (kept : run.Kept) (late : 6 ≤ run.stage.position) {name : String}
    (concerns : run.Concerns name) :
    ∃ truth, run.conditions.entries.get? name = some (.resolved truth) := by
  obtain ⟨seeded, -, evaluates⟩ := kept.evaluated late
  have known : run.conditions.contains name := by
    cases concerns with
    | block attached found block =>
      exact kept.blocks (Nat.le_of_succ_le late) _ _ _ attached found block
    | declared declared => exact kept.seeded (by omega) name declared
    | owner member scope =>
      exact kept.seeded (by omega) name (kept.owned (by omega) _ member _ scope)
  exact Condition.Table.resolved_of_evaluateAll evaluates
    ((Condition.Table.contains_of_evaluateAll evaluates).1 known)

/-! ## Steps that succeed -/

section Steps

variable {tree filtered : Tree} {catalog found : Catalog} {conditions table : Condition.Table}
  {stage : Stage}

/-- A property that is declared in a configuration belongs to one of the catalog. -/
theorem owned_of_extract {F : Forest Content} (tidy : tree.Tidy F)
    (extracts : Catalog.extract tree = .ok catalog) :
    ∀ property ∈ catalog.properties, ∀ owner, property.scope = some owner →
      catalog.HasCondition owner := by
  intro property member owner scope
  rw [Catalog.extract_eq] at extracts
  obtain ⟨configurations, -, -, properties⟩ := Catalog.ofDeclarations_eq_ok extracts
  rw [properties] at member
  obtain ⟨⟨declared, line⟩, inTree, same⟩ := List.mem_filterMap.1 member
  have shown := Catalog.fst_declarationsOf tidy.shows_
  have inForest : declared ∈ F.declarations := shown ▸ List.mem_map_of_mem inTree
  cases declared with
  | property name description value own overridable =>
    cases same
    obtain rfl : own = some owner := scope
    obtain ⟨description, selected, config⟩ := tidy.owned _ _ _ _ _ inForest
    rw [← shown] at config
    obtain ⟨⟨_, line⟩, declares, rfl⟩ := List.mem_map.1 config
    exact .configuration
      ((configurations _ ⟨owner, description, selected, line⟩).2 ⟨rfl, declares⟩)
  | _ => cases same

theorem KeptAt.parse (kept : KeptAt .unparsed tree catalog conditions) {store : Store}
    {text directory : String} (parses : Tree.parse store text directory = .ok filtered) :
    KeptAt .parsed filtered catalog conditions := by
  obtain ⟨lists, F, listed, tidy⟩ := Document.Tree.parse_builds parses
  exact {
    listed := ⟨lists, listed⟩
    tidy := fun _ => ⟨F, tidy⟩
    owned := fun late => absurd late (by decide)
    pending := fun _ => kept.pending (by decide)
    seeded := fun late => absurd late (by decide)
    blocks := fun late => absurd late (by decide)
    evaluated := fun late => absurd late (by decide) }

theorem KeptAt.extract (kept : KeptAt .parsed tree catalog conditions)
    (extracts : Catalog.extract tree = .ok found) :
    KeptAt .objectsExtracted tree found conditions := by
  obtain ⟨F, tidy⟩ := kept.tidy rfl
  exact {
    listed := kept.listed
    tidy := nofun
    owned := fun _ => owned_of_extract tidy extracts
    pending := fun _ => kept.pending (by decide)
    seeded := fun late => absurd late (by decide)
    blocks := fun late => absurd late (by decide)
    evaluated := fun late => absurd late (by decide) }

/-- Conditions may be added before all of them have been. -/
theorem KeptAt.add (kept : KeptAt .objectsExtracted tree catalog conditions)
    (pending : table.AllPending) : KeptAt .objectsExtracted tree catalog table where
  listed := kept.listed
  tidy := nofun
  owned := kept.owned
  pending := fun _ => pending
  seeded := fun late => absurd late (by decide)
  blocks := fun late => absurd late (by decide)
  evaluated := fun late => absurd late (by decide)

theorem contains_of_seeding {requested : NameMap Bool}
    (adds : AddsFormulas (catalog.configurations.values.foldl (seedConfiguration requested)
      conditions) (catalog.defines ++ catalog.rules) table) {name : String}
    (declared : catalog.HasCondition name) : table.contains name := by
  have derived : ∀ named ∈ catalog.defines ++ catalog.rules, table.contains named.name := by
    intro named member
    obtain ⟨formula, parses⟩ := formula_of_addsFormulas adds named member
    exact Condition.Table.contains_iff.2
      ⟨_, (get?_of_addsFormulas adds).2 (.inr ⟨named, member, rfl, formula, parses, rfl⟩)⟩
  cases declared with
  | configuration found =>
    have seeded := (@contains_foldl_seedConfiguration requested _ _ conditions).2
      (.inl ⟨_, NameMap.mem_values_iff.2 ⟨_, found⟩, rfl⟩)
    obtain ⟨entry, entered⟩ := Condition.Table.contains_iff.1 seeded
    exact Condition.Table.contains_iff.2 ⟨entry, (get?_of_addsFormulas adds).2 (.inl entered)⟩
  | define member => exact derived _ (List.mem_append_left _ member)
  | rule member => exact derived _ (List.mem_append_right _ member)

theorem KeptAt.seed (kept : KeptAt .objectsExtracted tree catalog conditions)
    (pending : table.AllPending) (known : ∀ name, catalog.HasCondition name → table.contains name) :
    KeptAt .conditionsSeeded tree catalog table where
  listed := kept.listed
  tidy := nofun
  owned := fun _ => kept.owned (by decide)
  pending := fun _ => pending
  seeded := fun _ => known
  blocks := fun late => absurd late (by decide)
  evaluated := fun late => absurd late (by decide)

theorem KeptAt.filter (kept : KeptAt .conditionsSeeded tree catalog conditions) :
    KeptAt .treeFiltered (withoutDeclarations tree) catalog conditions := by
  obtain ⟨lists, listed⟩ := kept.listed
  exact {
    listed := ⟨_, (pruned_withoutDeclarations listed).listed⟩
    tidy := nofun
    owned := fun _ => kept.owned (by decide)
    pending := fun _ => kept.pending (by decide)
    seeded := fun _ => kept.seeded (by decide)
    blocks := fun late => absurd late (by decide)
    evaluated := fun late => absurd late (by decide) }

theorem KeptAt.validate (kept : KeptAt .treeFiltered tree catalog conditions)
    (checked : ∀ F, tree.Shows F → ∀ name ∈ F.blocks, conditions.contains name) :
    KeptAt .treeValidated tree catalog conditions := by
  obtain ⟨lists, listed⟩ := kept.listed
  obtain ⟨F, shown⟩ := listed.exists_shows
  have blocks : ∀ id node name, tree.Attached id → tree.node? id = some node →
      node.content = .block name → conditions.contains name := by
    intro id node name attached found block
    refine checked F shown name (Forest.mem_blocks.2 (shown.mem_toList_iff.2 ⟨id, ?_, ?_⟩))
    · exact listed.mem_forest_of_attached attached
    · rw [Document.Tree.content?, found, Option.map_some, block]
  exact {
    listed := kept.listed
    tidy := fun early => absurd early (by decide)
    owned := fun _ => kept.owned (by decide)
    pending := fun _ => kept.pending (by decide)
    seeded := fun _ => kept.seeded (by decide)
    blocks := fun _ => blocks
    evaluated := fun late => absurd late (by decide) }

theorem KeptAt.evaluate (kept : KeptAt .treeValidated tree catalog conditions)
    (evaluates : conditions.evaluateAll = .ok table) :
    KeptAt .conditionsEvaluated tree catalog table where
  listed := kept.listed
  tidy := nofun
  owned := fun _ => kept.owned (by decide)
  pending := fun early => absurd early (by decide)
  seeded := fun _ name declared => (Condition.Table.contains_of_evaluateAll evaluates).2
    (kept.seeded (by decide) name declared)
  blocks := fun _ id node name attached found block =>
    (Condition.Table.contains_of_evaluateAll evaluates).2
      (kept.blocks (by decide) id node name attached found block)
  evaluated := fun _ => ⟨conditions, kept.pending (by decide), evaluates⟩

/-- Behind the evaluation, the tree, the catalog and the conditions stay as they are. -/
theorem KeptAt.late (kept : KeptAt stage tree catalog conditions) (later : Stage)
    (late : 6 ≤ stage.position) (further : 6 ≤ later.position) :
    KeptAt later tree catalog conditions where
  listed := kept.listed
  tidy := by
    rintro rfl
    exact absurd further (by decide)
  owned := fun _ => kept.owned (by omega)
  pending := fun early => by omega
  seeded := fun _ => kept.seeded (by omega)
  blocks := fun _ => kept.blocks (by omega)
  evaluated := fun _ => kept.evaluated late

end Steps

/-! ## Conditions that are added -/

/-- Only pending conditions are added, whether or not all of them can be. -/
theorem allPending_forM_seedFormula {all : List NamedFormula} {result : Except RunError Unit}
    (pending : run.conditions.AllPending) (seeds : all.forM seedFormula run = (result, after)) :
    after.conditions.AllPending := by
  induction all generalizing run with
  | nil =>
    cases seeds
    exact pending
  | cons first rest ih =>
    have steps : (seedFormula first >>= fun _ => rest.forM seedFormula : StepM Unit) run =
      (result, after) := seeds
    rw [Attempt.run_bind] at steps
    split at steps
    · rename_i middle adds
      obtain ⟨-, formula, -, rfl⟩ := seedFormula_eq_ok adds
      exact ih (pending.insert first.name formula) steps
    · rename_i middle fails
      cases steps
      rw [(seedFormula_eq_error fails).1]
      exact pending

theorem allPending_foldl_seedConfiguration {requested : NameMap Bool}
    {configurations : List Configuration} {table : Condition.Table} (pending : table.AllPending) :
    (configurations.foldl (seedConfiguration requested) table).AllPending := by
  induction configurations generalizing table with
  | nil => exact pending
  | cons first rest ih => exact ih (pending.insert first.name _)

theorem allPending_seedConditions {result : Except RunError Unit}
    (pending : run.conditions.AllPending) (step : seedConditions run = (result, after)) :
    after.conditions.AllPending := by
  by_cases reached : run.stage = .objectsExtracted
  · rcases requests : requestedValues run.catalog run.request with cause | requested
    · rw [seedConditions, expect_bind_eq _ reached, Attempt.run_get_bind, Attempt.run_bind,
        requests] at step
      cases step
      exact pending
    · rw [seedConditions_at reached requests, Attempt.run_bind] at step
      have filled : (run.catalog.configurations.values.foldl (seedConfiguration requested)
        run.conditions).AllPending := allPending_foldl_seedConfiguration pending
      split at step <;> rename_i seeds <;> have grown := allPending_forM_seedFormula filled seeds
      · cases step
        exact grown
      · cases step
        exact grown
  · rw [seedConditions, expect_bind_of_ne _ reached] at step
    cases step
    exact pending

theorem Step.stage_of_ok {step : Step} (later : step ≠ .parse)
    (performs : step.perform store run = (.ok (), after)) : run.stage = step.stage := by
  by_contra wrong
  rw [Step.perform_of_ne store later wrong] at performs
  cases performs

theorem Step.kept_of_ok {step : Step} (kept : run.Kept)
    (performs : step.perform store run = (.ok (), after)) : after.Kept := by
  by_cases parses : step = .parse
  · subst parses
    by_cases fresh : run.stage = .unparsed
    · obtain ⟨text, tree, -, parses, rfl⟩ := parse_eq_ok fresh performs
      rw [Kept, fresh] at kept
      exact kept.parse parses
    · cases (parse_rests store fresh).symm.trans performs
      exact kept
  have reached := Step.stage_of_ok parses performs
  rw [Kept, reached] at kept
  cases step with
  | parse => exact absurd rfl parses
  | extractDefinitions =>
    obtain ⟨catalog, extracts, rfl⟩ := extractDefinitions_eq_ok performs
    exact kept.extract extracts
  | seedConditions =>
    have pending := allPending_seedConditions (kept.pending (by decide)) performs
    obtain ⟨requested, table, -, adds, rfl⟩ := seedConditions_eq_ok performs
    exact kept.seed pending fun name => contains_of_seeding adds
  | filterTree =>
    rw [filterTree_eq_ok performs]
    exact kept.filter
  | validateTree =>
    obtain ⟨checked, rfl⟩ := validateTree_eq_ok performs
    exact kept.validate checked
  | evaluateConditions =>
    obtain ⟨table, evaluates, rfl⟩ := evaluateConditions_eq_ok performs
    exact kept.evaluate evaluates
  | buildProperties =>
    obtain ⟨warnings, rfl⟩ := buildProperties_eq_ok performs
    exact kept.late .propertiesBuilt (by decide) (by decide)
  | checkRules =>
    obtain ⟨-, rfl⟩ := checkRules_eq_ok performs
    exact kept.late .rulesChecked (by decide) (by decide)
  | generateOutput =>
    obtain ⟨pieces, -, rfl⟩ := generateOutput_eq_ok performs
    exact kept.late .outputGenerated (by decide) (by decide)

/-! ## Steps that fail -/

theorem Step.kept_of_error {step : Step} (kept : run.Kept)
    (fails : step.perform store run = (.error cause, after)) : after.Kept := by
  obtain ⟨leaves, -⟩ := Step.leaves_of_error fails
  by_cases same : after.conditions = run.conditions
  · rw [leaves.rest, same]
    exact kept
  obtain ⟨seeds, -⟩ := leaves.conditions same
  obtain rfl : step = .seedConditions := by cases seeds; rfl
  have reached : run.stage = .objectsExtracted := by
    by_contra wrong
    rw [Step.perform_of_ne store (by decide) wrong] at fails
    cases fails
    exact same rfl
  rw [Kept, reached] at kept
  have pending := allPending_seedConditions (kept.pending (by decide)) fails
  rw [leaves.rest, Kept, reached]
  exact kept.add pending

theorem Step.kept {step : Step} {result : Except RunError Unit} (kept : run.Kept)
    (performs : step.perform store run = (result, after)) : after.Kept := by
  cases result with
  | ok done => exact Step.kept_of_ok kept performs
  | error cause => exact Step.kept_of_error kept performs

/-! ## Calls -/

theorem forM_perform_kept {steps : List Step} {result : Except RunError Unit} (kept : run.Kept)
    (performs : (steps.forM (Step.perform store) : StepM Unit) run = (result, after)) :
    after.Kept := by
  induction steps generalizing run with
  | nil =>
    cases performs
    exact kept
  | cons first rest ih =>
    have both : (first.perform store >>= fun _ => rest.forM (Step.perform store) : StepM Unit) run =
      (result, after) := performs
    rw [Attempt.run_bind] at both
    split at both
    · rename_i middle performed
      exact ih (Step.kept kept performed) both
    · rename_i failed
      cases both
      exact Step.kept kept failed

theorem commit_kept {result : Except RunError Outcome} (kept : run.Kept)
    (commits : commit (run, store) = (result, after, left)) : after.Kept := by
  cases result with
  | error cause =>
    rw [(commit_eq_error commits).1]
    exact kept
  | ok outcome =>
    have ready : run.stage = .outputGenerated := by
      by_contra wrong
      rw [commit_of_ne store wrong] at commits
      cases commits
    rw [commit_eq_ok ready commits]
    rw [Kept, ready] at kept
    exact kept.late .committed (by decide) (by decide)

theorem complete_kept {result : Except RunError Report} (kept : run.Kept)
    (completes : complete (run, store) = (result, after, left)) : after.Kept := by
  rw [complete_eq] at completes
  split at completes
  · cases completes
    exact kept
  · split at completes
    · rename_i failed
      cases completes
      exact forM_perform_kept kept failed
    · rename_i middle prepared
      have ready := forM_perform_kept kept prepared
      split at completes
      · rename_i cause state failed
        cases completes
        exact commit_kept ready failed
      · rename_i outcome last later committed
        cases completes
        exact commit_kept ready committed

/-- Every call keeps the invariant, whether it succeeds or fails. -/
theorem answer_kept {call : Call} {result : Except RunError Reply} (kept : run.Kept)
    (answers : answer call (run, store) = (result, after, left)) : after.Kept := by
  cases call with
  | step step =>
    rw [answer_step] at answers
    split at answers
    · rename_i performs
      cases answers
      exact Step.kept kept performs
    · rename_i performs
      cases answers
      exact Step.kept kept performs
  | commit =>
    rw [answer_commit] at answers
    split at answers
    · rename_i commits
      cases answers
      exact commit_kept kept commits
    · rename_i commits
      cases answers
      exact commit_kept kept commits
  | complete =>
    rw [answer_complete] at answers
    split at answers
    · rename_i completes
      cases answers
      exact complete_kept kept completes
    · rename_i completes
      cases answers
      exact complete_kept kept completes

theorem history_kept (calls : List (Call × Store)) (kept : run.Kept) :
    ∀ called ∈ history calls run, called.after.Kept := by
  induction calls generalizing run with
  | nil => simp [history]
  | cons first rest ih =>
    obtain ⟨call, store⟩ := first
    intro called member
    have next : (Called.of id call run store).after.Kept := answer_kept kept rfl
    rcases List.mem_cons.1 member with rfl | later
    · exact next
    · exact ih next called later

/-- Whatever calls are made on a run, with whatever files: once the conditions have been evaluated,
every block of the tree, every configuration, derived condition and rule, and every configuration
that has properties, has a value in the table, which evaluation has put there in place of a formula.
So a condition that a run takes for false is one that has been evaluated to false. -/
theorem history_decides (request : Request) (directory : String) (calls : List (Call × Store)) :
    ∀ called ∈ history calls (start request directory),
      Stage.conditionsEvaluated.position ≤ called.after.stage.position →
        (∀ name, called.after.Concerns name → ∃ truth,
          called.after.conditions.entries.get? name = some (.resolved truth) ∧
            called.after.conditions.isTrue name = truth) ∧
        ∃ seeded : Condition.Table,
          seeded.AllPending ∧ seeded.evaluateAll = .ok called.after.conditions := by
  intro called member late
  have kept := history_kept calls (kept_start request directory) called member
  refine ⟨fun name concerns => ?_, kept.evaluated late⟩
  obtain ⟨truth, found⟩ := kept.resolved late concerns
  refine ⟨truth, found, ?_⟩
  simp [Condition.Table.isTrue, Condition.Table.value?, found]

/-- A template with a block whose condition is derived from a configuration. -/
def exDerived : Store :=
  exTemplate "<config name=\"a\"/><define name=\"b\">!a</define><b>x</b>"

/-- The configuration is not selected, so the condition of the block is true. -/
theorem exDerived_decides :
    let request : Request := ⟨"t", "o", [], [], .empty, .yes⟩
    let called := Called.of id .complete (start request "") exDerived
    called ∈ history [(.complete, exDerived)] (start request "") ∧
      Stage.conditionsEvaluated.position ≤ called.after.stage.position ∧
      called.after.Concerns "a" ∧ called.after.Concerns "b" ∧
      called.after.conditions.entries.get? "a" = some (.resolved false) ∧
      called.after.conditions.entries.get? "b" = some (.resolved true) ∧
      called.after.conditions.isTrue "a" = false ∧ called.after.conditions.isTrue "b" = true := by
  intro request called
  have member : called ∈ history [(.complete, exDerived)] (start request "") := List.mem_cons_self
  have late : Stage.conditionsEvaluated.position ≤ called.after.stage.position := by decide +kernel
  have declared : called.after.catalog.configurations.get? "a" = some ⟨"a", "", false, 1⟩ := by
    decide +kernel
  have attached : called.after.tree.Attached 2 := .topLevel (by decide +kernel)
  have content : (called.after.tree.node? 2).map Node.content = some (.block "b") := by
    decide +kernel
  obtain ⟨node, found, block⟩ := Option.map_eq_some_iff.1 content
  have configured : called.after.Concerns "a" := .declared (.configuration declared)
  have concerns : called.after.Concerns "b" := .block attached found block
  have decides := history_decides request "" [(.complete, exDerived)] called member late
  obtain ⟨off, configuredOff, isOff⟩ := decides.1 "a" configured
  obtain ⟨on, blockOn, isOn⟩ := decides.1 "b" concerns
  have values : called.after.conditions.isTrue "a" = false ∧
      called.after.conditions.isTrue "b" = true := by decide +kernel
  obtain rfl : false = off := values.1.symm.trans isOff
  obtain rfl : true = on := values.2.symm.trans isOn
  exact ⟨member, late, configured, concerns, configuredOff, blockOn, values⟩

end Run

end ConfigTemplate
