import ConfigTemplate.Proofs.Document.Contents
import ConfigTemplate.Run.Configure

/-!
# What the steps of a run do

One lemma for each step says everything about a run on which the step succeeds: what it found, and
which parts of the run it changed. Later proofs use these lemmas and never open a step again.

Results:
1. `parse_eq_ok`, …, `generateOutput_eq_ok`: the steps one by one.
2. `prepare_eq_ok`: all steps in order, with the results that they hand to each other.
-/

namespace ConfigTemplate.Run

open Document (Content Node NodeId Tree)

variable {run after : Run}

/-! ## Stages -/

theorem expect_eq_ok_iff {stage : Stage} :
    expect stage run = (.ok (), after) ↔ run.stage = stage ∧ after = run := by
  rw [expect, Attempt.run_bind, Attempt.run_get]
  dsimp only
  by_cases reached : run.stage = stage
  · rw [if_neg (not_not_intro reached)]
    exact ⟨fun same => by cases same; exact ⟨reached, rfl⟩, fun ⟨_, same⟩ => same ▸ rfl⟩
  · rw [if_pos reached]
    exact ⟨(nomatch ·), fun ⟨same, _⟩ => absurd same reached⟩

/-- A step that begins by expecting a stage goes on at that stage. -/
theorem expect_bind_eq_ok {α : Type} {stage : Stage} {rest : Unit → StepM α} {result : α}
    (steps : (expect stage >>= rest : StepM α) run = (.ok result, after)) :
    rest () run = (.ok result, after) := by
  obtain ⟨_, middle, expected, further⟩ := Attempt.run_bind_eq_ok_iff.1 steps
  obtain ⟨-, rfl⟩ := expect_eq_ok_iff.1 expected
  exact further

theorem mapError_eq_ok_iff {ε δ α : Type} {change : ε → δ} {result : Except ε α} {value : α} :
    result.mapError change = .ok value ↔ result = .ok value := by
  cases result <;> simp [Except.mapError]

/-- A computation without effects in front of a step has a result when the step succeeds. -/
theorem ofExcept_mapError_eq_ok {ε α β : Type} {change : ε → RunError} {found : Except ε α}
    {rest : α → StepM β} {result : β}
    (steps : (Attempt.ofExcept (found.mapError change) >>= rest : StepM β) run =
      (.ok result, after)) :
    ∃ value, found = .ok value ∧ rest value run = (.ok result, after) := by
  obtain ⟨value, same, further⟩ := Attempt.run_ofExcept_bind_eq_ok_iff.1 steps
  exact ⟨value, mapError_eq_ok_iff.1 same, further⟩

/-! ## The template -/

theorem parse_eq_ok {store : Store} (fresh : run.stage = .unparsed)
    (step : parse store run = (.ok (), after)) :
    ∃ text tree, store.readText run.templatePath = .ok text ∧
      Tree.parse store text ((Path.parent? run.templatePath).getD "") = .ok tree ∧
      after = { run with tree, stage := .parsed } := by
  rw [parse, Attempt.run_get_bind] at step
  rw [if_pos fresh] at step
  obtain ⟨text, reads, step⟩ := ofExcept_mapError_eq_ok step
  obtain ⟨tree, parses, step⟩ := ofExcept_mapError_eq_ok step
  cases step
  exact ⟨text, tree, reads, parses, rfl⟩

theorem extractDefinitions_eq_ok (step : extractDefinitions run = (.ok (), after)) :
    ∃ catalog, Catalog.extract run.tree = .ok catalog ∧
      after = { run with catalog, stage := .objectsExtracted } := by
  have step := expect_bind_eq_ok step
  rw [Attempt.run_get_bind] at step
  obtain ⟨catalog, extracts, step⟩ := ofExcept_mapError_eq_ok step
  cases step
  exact ⟨catalog, extracts, rfl⟩

/-! ## Conditions -/

/-- Conditions are added to a table with their formulas, each under a name that is still free. -/
inductive AddsFormulas : Condition.Table → List NamedFormula → Condition.Table → Prop
  | nil {table : Condition.Table} : AddsFormulas table [] table
  | cons {table after : Condition.Table} {named : NamedFormula} {rest : List NamedFormula}
      {formula : Formula} (free : table.contains named.name = false)
      (parses : named.formula = .ok formula)
      (further : AddsFormulas (table.insert named.name (.pending formula)) rest after) :
      AddsFormulas table (named :: rest) after

theorem seedFormula_eq_ok {named : NamedFormula} (step : seedFormula named run = (.ok (), after)) :
    run.conditions.contains named.name = false ∧ ∃ formula, named.formula = .ok formula ∧
      after = { run with conditions := run.conditions.insert named.name (.pending formula) } := by
  rw [seedFormula, Attempt.run_get_bind] at step
  split at step
  · cases step
  · rename_i free
    obtain ⟨formula, parses, step⟩ := ofExcept_mapError_eq_ok step
    cases step
    exact ⟨Bool.not_eq_true _ ▸ free, formula, parses, rfl⟩

theorem forM_seedFormula_eq_ok {named : List NamedFormula}
    (steps : named.forM seedFormula run = (.ok (), after)) :
    ∃ table, AddsFormulas run.conditions named table ∧
      after = { run with conditions := table } := by
  induction named generalizing run with
  | nil =>
    cases steps
    exact ⟨_, .nil, rfl⟩
  | cons first rest ih =>
    obtain ⟨_, middle, step, further⟩ := Attempt.run_bind_eq_ok_iff.1 steps
    obtain ⟨free, formula, parses, same⟩ := seedFormula_eq_ok step
    obtain ⟨table, adds, unchanged⟩ := ih further
    subst same
    exact ⟨table, .cons free parses adds, unchanged⟩

theorem seedConditions_eq_ok (step : seedConditions run = (.ok (), after)) :
    ∃ requested table, requestedValues run.catalog run.request = .ok requested ∧
      AddsFormulas (run.catalog.configurations.values.foldl (seedConfiguration requested)
        run.conditions) (run.catalog.defines ++ run.catalog.rules) table ∧
      after = { run with conditions := table, stage := .conditionsSeeded } := by
  have step := expect_bind_eq_ok step
  rw [Attempt.run_get_bind] at step
  obtain ⟨requested, requests, further⟩ := Attempt.run_ofExcept_bind_eq_ok_iff.1 step
  rw [Attempt.run_set_bind] at further
  obtain ⟨_, between, seeds, last⟩ := Attempt.run_bind_eq_ok_iff.1 further
  obtain ⟨table, adds, rfl⟩ := forM_seedFormula_eq_ok seeds
  cases last
  exact ⟨requested, table, requests, adds, rfl⟩

theorem evaluateConditions_eq_ok (step : evaluateConditions run = (.ok (), after)) :
    ∃ table, run.conditions.evaluateAll = .ok table ∧
      after = { run with conditions := table, stage := .conditionsEvaluated } := by
  have step := expect_bind_eq_ok step
  rw [Attempt.run_get_bind] at step
  obtain ⟨table, evaluates, step⟩ := ofExcept_mapError_eq_ok step
  cases step
  exact ⟨table, evaluates, rfl⟩

/-! ## The tree -/

theorem filterTree_eq_ok (step : filterTree run = (.ok (), after)) :
    after = { run with tree := withoutDeclarations run.tree, stage := .treeFiltered } := by
  cases expect_bind_eq_ok step
  rfl

theorem checkBlock_eq_ok {conditions : Condition.Table} {node : Node} {answer : Bool}
    (checks : checkBlock conditions node = .ok answer) :
    answer = true ∧ ∀ name, node.content = .block name → conditions.contains name := by
  unfold checkBlock at checks
  split at checks
  · rename_i condition same
    split at checks <;> cases checks
    rename_i known
    exact ⟨rfl, fun name block => by cases same.symm.trans block; exact known⟩
  · rename_i characters same
    cases checks
    exact ⟨rfl, fun name block => nomatch same.symm.trans block⟩
  · rename_i declared same
    cases checks
    exact ⟨rfl, fun name block => nomatch same.symm.trans block⟩

/-- A visit that checks the blocks finds a condition for each of them. -/
theorem contains_of_visit {conditions : Condition.Table} {tree : Tree} {forest : Forest NodeId}
    {F : Forest Content} (shows_ : forest.map tree.content? = F.map some)
    (visits : (forest.visit fun id => match tree.node? id with
      | some node => checkBlock conditions node
      | none => pure false) = .ok ()) {name : String} (block : .block name ∈ F.toList) :
    conditions.contains name := by
  induction forest generalizing F with
  | nil =>
    cases F with
    | nil => cases block
    | cons content children rest => cases shows_
  | cons id below behind ihBelow ihBehind =>
    cases F with
    | nil => cases shows_
    | cons content children rest =>
      injection shows_ with same belows behinds
      obtain ⟨node, found, rfl⟩ := Option.map_eq_some_iff.1 same
      rw [Forest.visit, found] at visits
      obtain ⟨answer, checks, further⟩ := except_bind_eq_ok visits
      obtain ⟨rfl, known⟩ := checkBlock_eq_ok checks
      obtain ⟨_, inner, outer⟩ := except_bind_eq_ok further
      rcases List.mem_cons.1 block with here | member
      · exact known name here.symm
      · rcases List.mem_append.1 member with inside | later
        · exact ihBelow belows inner inside
        · exact ihBehind behinds outer later

theorem validateTree_eq_ok (step : validateTree run = (.ok (), after)) :
    (∀ F, run.tree.Shows F → ∀ name ∈ F.blocks, run.conditions.contains name) ∧
      after = { run with stage := .treeValidated } := by
  have step := expect_bind_eq_ok step
  rw [Attempt.run_get_bind] at step
  obtain ⟨_, visits, further⟩ := Attempt.run_ofExcept_bind_eq_ok_iff.1 step
  cases further
  exact ⟨fun F shows_ name member => contains_of_visit shows_ visits (Forest.mem_blocks.1 member),
    rfl⟩

/-! ## Properties and rules -/

/-- The spelling of a property that a request names. -/
def spelled (catalog : Catalog) (name : String) : String :=
  match catalog.property? name with
  | some property => property.name
  | none => name

/-- The scope with the value that a request gives to a property, unless it is locked. -/
def overridden (catalog : Catalog) (locked : List String) (scope : Property.Scope)
    (wish : String × String) : Property.Scope :=
  let name := spelled catalog wish.1
  if scope.contains name && locked.contains name then scope else scope.set name wish.2

theorem override_eq (locked : List String) (run : Run) (wish : String × String) :
    ∃ warnings, override locked run wish =
      { run with scope := overridden run.catalog locked run.scope wish, warnings } := by
  have same : override locked run wish =
      let name := spelled run.catalog wish.1
      if run.scope.contains name && locked.contains name then
        { run with warnings := run.warnings ++ [.propertyNotOverridable name] }
      else { run with scope := run.scope.set name wish.2 } := rfl
  rw [same, overridden]
  dsimp only
  split
  · exact ⟨_, rfl⟩
  · exact ⟨run.warnings, rfl⟩

theorem foldl_override_eq (locked : List String) (run : Run) (wishes : List (String × String)) :
    ∃ warnings, wishes.foldl (override locked) run =
      { run with scope := wishes.foldl (overridden run.catalog locked) run.scope, warnings } := by
  induction wishes generalizing run with
  | nil => exact ⟨run.warnings, rfl⟩
  | cons wish rest ih =>
    obtain ⟨warned, first⟩ := override_eq locked run wish
    obtain ⟨warnings, further⟩ := ih (override locked run wish)
    exact ⟨warnings, by rw [List.foldl_cons, further, first]; rfl⟩

/-- The scope with the values of declared properties. -/
def declare (scope : Property.Scope) (active : List DeclaredProperty) : Property.Scope :=
  active.foldl (fun scope property => scope.set property.name property.value) scope

theorem buildProperties_eq_ok (step : buildProperties run = (.ok (), after)) :
    ∃ warnings, after =
      let active := activeProperties run.catalog run.conditions
      { run with
        scope := run.request.properties.toList.foldl
          (overridden run.catalog (lockedNames active)) (declare run.scope active)
        warnings
        stage := .propertiesBuilt } := by
  cases expect_bind_eq_ok step
  exact foldl_override_eq _ _ _

theorem checkRules_eq_ok (step : checkRules run = (.ok (), after)) :
    (∀ rule ∈ run.catalog.rules, run.conditions.isTrue rule.name) ∧
      after = { run with stage := .rulesChecked } := by
  have step := expect_bind_eq_ok step
  rw [Attempt.run_get_bind] at step
  rcases found : run.catalog.rules.find? fun rule => !run.conditions.isTrue rule.name with _ | rule
  · simp only [found] at step
    cases step
    exact ⟨fun rule member => by simpa using List.find?_eq_none.1 found rule member, rfl⟩
  · simp only [found] at step
    cases step

/-! ## The output -/

theorem emit_eq_ok {node : Node} {answer : Bool} (step : emit node run = (.ok answer, after)) :
    (∃ characters piece, node.content = .text characters ∧
        run.scope.substitute characters = .ok piece ∧ answer = true ∧
        after = { run with output := run.output ++ piece }) ∨
      (∃ condition, node.content = .block condition ∧ answer = run.conditions.isTrue condition ∧
        after = run) ∨
      (∃ declared, node.content = .declaration declared ∧ answer = false ∧ after = run) := by
  rw [emit, Attempt.run_get_bind] at step
  cases content : node.content with
  | text characters =>
    simp only [content] at step
    obtain ⟨piece, substitutes, step⟩ := ofExcept_mapError_eq_ok step
    cases step
    exact .inl ⟨characters, piece, rfl, substitutes, rfl, rfl⟩
  | block condition =>
    simp only [content] at step
    cases step
    exact .inr (.inl ⟨condition, rfl, rfl, rfl⟩)
  | declaration declared =>
    simp only [content] at step
    cases step
    exact .inr (.inr ⟨declared, rfl, rfl, rfl⟩)

theorem mapM_append_eq_ok {ε α β : Type} {f : α → Except ε β} {left right : List α}
    {first second : List β} (begins : left.mapM f = .ok first) (ends : right.mapM f = .ok second) :
    (left ++ right).mapM f = .ok (first ++ second) := by
  rw [List.mapM_append, begins, ends]
  rfl

theorem mapM_cons_eq_ok {ε α β : Type} {f : α → Except ε β} {head : α} {tail : List α}
    {first : β} {rest : List β} (begins : f head = .ok first) (ends : tail.mapM f = .ok rest) :
    (head :: tail).mapM f = .ok (first :: rest) := by
  rw [List.mapM_cons, begins, ends]
  rfl

/-- A visit that emits the texts adds those that are shown, each with its markers replaced. -/
theorem visit_emit_eq_ok {tree : Tree} {forest : Forest NodeId}
    (visits : (forest.visit fun id => match tree.node? id with
      | some node => emit node
      | none => pure false : StepM Unit) run = (.ok (), after)) :
    ∃ pieces, ((forest.map tree.content?).shown run.conditions.isTrue).mapM run.scope.substitute =
        .ok pieces ∧
      after = { run with output := run.output ++ String.join pieces } := by
  induction forest generalizing run after with
  | nil =>
    cases visits
    exact ⟨[], rfl, by simp⟩
  | cons id below behind ihBelow ihBehind =>
    rw [Forest.visit] at visits
    obtain ⟨answer, middle, step, further⟩ := Attempt.run_bind_eq_ok_iff.1 visits
    rw [Forest.map]
    rcases found : tree.node? id with _ | node
    · simp only [found] at step
      cases step
      have content : tree.content? id = none := by simp [Tree.content?, found]
      rw [content]
      exact ihBehind further
    · simp only [found] at step
      have content : tree.content? id = some node.content := by simp [Tree.content?, found]
      rw [content]
      obtain ⟨characters, piece, same, substitutes, rfl, emitted⟩ |
        ⟨condition, same, rfl, unchanged⟩ | ⟨declared, same, rfl, unchanged⟩ := emit_eq_ok step
      · obtain ⟨_, between, inner, outer⟩ := Attempt.run_bind_eq_ok_iff.1 further
        obtain ⟨first, begins, added⟩ := ihBelow inner
        obtain ⟨second, ends, last⟩ := ihBehind outer
        subst emitted added
        rw [same]
        refine ⟨piece :: (first ++ second),
          mapM_cons_eq_ok substitutes (mapM_append_eq_ok begins ends), last.trans ?_⟩
        simp [String.append_assoc]
      · subst unchanged
        rw [same, Forest.shown]
        split at further
        · rename_i holds
          obtain ⟨_, between, inner, outer⟩ := Attempt.run_bind_eq_ok_iff.1 further
          obtain ⟨first, begins, added⟩ := ihBelow inner
          obtain ⟨second, ends, last⟩ := ihBehind outer
          subst added
          rw [if_pos holds]
          refine ⟨first ++ second, mapM_append_eq_ok begins ends, last.trans ?_⟩
          simp [String.append_assoc]
        · rename_i fails
          rw [if_neg fails]
          exact ihBehind further
      · subst unchanged
        rw [same]
        exact ihBehind further

theorem generateOutput_eq_ok (step : generateOutput run = (.ok (), after)) :
    ∃ pieces, ((run.tree.forest.map run.tree.content?).shown run.conditions.isTrue).mapM
        run.scope.substitute = .ok pieces ∧
      after = { run with output := String.join pieces, stage := .outputGenerated } := by
  have visits := expect_bind_eq_ok step
  rw [Attempt.run_modify_bind, Attempt.run_get_bind] at visits
  obtain ⟨_, between, emits, last⟩ := Attempt.run_bind_eq_ok_iff.1 visits
  obtain ⟨pieces, substitutes, rfl⟩ := visit_emit_eq_ok emits
  cases last
  exact ⟨pieces, substitutes, by simp⟩

/-! ## All steps -/

/-- What the steps of a run hand to each other. -/
structure Stages where
  text : String
  tree : Tree
  catalog : Catalog
  requested : NameMap Bool
  seeded : Condition.Table
  settled : Condition.Table

namespace Stages

/-- The declared properties that count. -/
def active (stages : Stages) : List DeclaredProperty :=
  activeProperties stages.catalog stages.settled

/-- The values of all properties. -/
def scope (stages : Stages) (request : Request) : Property.Scope :=
  request.properties.toList.foldl (overridden stages.catalog (lockedNames stages.active))
    (declare .empty stages.active)

/-- The steps lead from the request by these stages to the output. -/
structure Lead (stages : Stages) (store : Store) (request : Request) (directory output : String) :
    Prop where
  reads : store.readText (Path.join directory request.template) = .ok stages.text
  parses : Tree.parse store stages.text
    ((Path.parent? (Path.join directory request.template)).getD "") = .ok stages.tree
  extracts : Catalog.extract stages.tree = .ok stages.catalog
  requests : requestedValues stages.catalog request = .ok stages.requested
  seeds : AddsFormulas
    (stages.catalog.configurations.values.foldl (seedConfiguration stages.requested) .empty)
    (stages.catalog.defines ++ stages.catalog.rules) stages.seeded
  blocks : ∀ F, (withoutDeclarations stages.tree).Shows F →
    ∀ name ∈ F.blocks, stages.seeded.contains name
  settles : stages.seeded.evaluateAll = .ok stages.settled
  rules : ∀ rule ∈ stages.catalog.rules, stages.settled.isTrue rule.name
  emits : ∃ pieces, (((withoutDeclarations stages.tree).forest.map
      (withoutDeclarations stages.tree).content?).shown stages.settled.isTrue).mapM
    (stages.scope request).substitute = .ok pieces ∧ output = String.join pieces

end Stages

/-- Makes all steps that lead to the output. -/
def prepare (store : Store) (request : Request) (directory : String) :
    Except RunError Unit × Run :=
  (Step.all.forM (Step.perform store) : StepM Unit) (start request directory)

/-- A store with the text of a template. -/
def exTemplate (text : String) : Store := ⟨[(["t"], .file (Bytes.ofText text))], []⟩

theorem forM_cons_eq_ok {α σ : Type} {f : α → Attempt RunError σ Unit} {head : α} {tail : List α}
    {state after : σ} (steps : (head :: tail).forM f state = (.ok (), after)) :
    ∃ middle, f head state = (.ok (), middle) ∧ tail.forM f middle = (.ok (), after) := by
  obtain ⟨_, middle, step, further⟩ := Attempt.run_bind_eq_ok_iff.1 steps
  exact ⟨middle, step, further⟩

/-- A run that makes all steps keeps the request and the paths, and its output comes about by the
steps. -/
theorem prepare_eq_ok {store : Store} {request : Request} {directory : String}
    (prepares : prepare store request directory = (.ok (), run)) :
    run.request = request ∧ run.outputPath = Path.join directory request.output ∧
      run.stage = .outputGenerated ∧
      ∃ stages : Stages, stages.Lead store request directory run.output := by
  obtain ⟨parsed, parsing, rest⟩ := forM_cons_eq_ok prepares
  obtain ⟨text, tree, reads, parses, same⟩ := parse_eq_ok rfl parsing
  subst same
  dsimp only [start] at rest
  obtain ⟨extracted, extracting, rest⟩ := forM_cons_eq_ok rest
  obtain ⟨catalog, extracts, same⟩ := extractDefinitions_eq_ok extracting
  subst same
  dsimp only at rest
  obtain ⟨seeded, seeding, rest⟩ := forM_cons_eq_ok rest
  obtain ⟨requested, table, requests, seeds, same⟩ := seedConditions_eq_ok seeding
  subst same
  dsimp only at rest
  obtain ⟨filtered, filtering, rest⟩ := forM_cons_eq_ok rest
  have same := filterTree_eq_ok filtering
  subst same
  dsimp only at rest
  obtain ⟨validated, validating, rest⟩ := forM_cons_eq_ok rest
  obtain ⟨blocks, same⟩ := validateTree_eq_ok validating
  subst same
  dsimp only at rest
  obtain ⟨evaluated, evaluating, rest⟩ := forM_cons_eq_ok rest
  obtain ⟨settled, settles, same⟩ := evaluateConditions_eq_ok evaluating
  subst same
  dsimp only at rest
  obtain ⟨built, building, rest⟩ := forM_cons_eq_ok rest
  obtain ⟨warnings, same⟩ := buildProperties_eq_ok building
  subst same
  dsimp only at rest
  obtain ⟨checked, checking, rest⟩ := forM_cons_eq_ok rest
  obtain ⟨rules, same⟩ := checkRules_eq_ok checking
  subst same
  dsimp only at rest
  obtain ⟨generated, generating, rest⟩ := forM_cons_eq_ok rest
  obtain ⟨pieces, substitutes, same⟩ := generateOutput_eq_ok generating
  subst same
  cases rest
  exact ⟨rfl, rfl, rfl, ⟨text, tree, catalog, requested, table, settled⟩,
    reads, parses, extracts, requests, seeds, blocks, settles, rules, pieces, substitutes, rfl⟩

end ConfigTemplate.Run
