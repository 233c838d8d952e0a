import ConfigTemplate.Proofs.Condition.Reference
import ConfigTemplate.Proofs.Run.Stages

/-!
# Parts that fail

A part that fails leaves the files alone, and the run as it was but for two fields: the conditions
that have been added, and the text that has been emitted until then.

Results:
1. `parse_eq_error`, …, `generateOutput_eq_error`, `commit_eq_error`: what each part leaves when it
   fails.
2. `Part.stage_of_error`: the stage is kept.
3. `Part.failure_keeps`: what all parts keep, and that a part that has failed fails again.
-/

namespace ConfigTemplate

/-- The failure is about the name or the text of a condition that is being added. -/
def RunError.concernsFormula : RunError → Bool
  | .duplicateCondition _ _ | .malformedFormula _ _ _ => true
  | _ => false

/-- The failure is about the markers of a text that is being emitted. -/
def RunError.concernsText : RunError → Bool
  | .unsettledText _ _ => true
  | _ => false

namespace Run

open Document (Content Node NodeId Tree)

variable {run after again : Run} {store left : Store} {cause : RunError}

/-! ## Computations without effects -/

/-- A step fails at once when it is not at its stage, or else behind the check. -/
theorem expect_bind_eq_error {α : Type} {stage : Stage} {rest : Unit → StepM α}
    (fails : (expect stage >>= rest : StepM α) run = (.error cause, after)) :
    after = run ∧ cause = .outOfOrder stage run.stage ∨
      run.stage = stage ∧ rest () run = (.error cause, after) := by
  by_cases reached : run.stage = stage
  · rw [expect_bind_eq rest reached] at fails
    exact .inr ⟨reached, fails⟩
  · rw [expect_bind_of_ne rest reached] at fails
    cases fails
    exact .inl ⟨rfl, rfl⟩

/-- A step that ends with a change of the run fails only in the computation before. -/
theorem ofExcept_set_eq_error {α : Type} {found : Except RunError α} {change : α → Run}
    (fails : (do let value ← Attempt.ofExcept found; set (change value) : StepM Unit) run =
      (.error cause, after)) : after = run := by
  rcases Attempt.run_ofExcept_bind_eq_error_iff.1 fails with ⟨-, unchanged⟩ | ⟨_, -, further⟩
  · exact unchanged
  · cases further

/-! ## Steps that leave nothing -/

theorem parse_eq_error (fails : parse store run = (.error cause, after)) : after = run := by
  rw [parse, Attempt.run_get_bind] at fails
  split at fails
  · rcases Attempt.run_ofExcept_bind_eq_error_iff.1 fails with ⟨-, unchanged⟩ | ⟨_, -, further⟩
    · exact unchanged
    · exact ofExcept_set_eq_error further
  · cases fails

theorem extractDefinitions_eq_error (fails : extractDefinitions run = (.error cause, after)) :
    after = run := by
  rcases expect_bind_eq_error fails with ⟨unchanged, -⟩ | ⟨-, further⟩
  · exact unchanged
  · exact ofExcept_set_eq_error further

theorem filterTree_eq_error (fails : filterTree run = (.error cause, after)) : after = run := by
  rcases expect_bind_eq_error fails with ⟨unchanged, -⟩ | ⟨-, further⟩
  · exact unchanged
  · cases further

theorem validateTree_eq_error (fails : validateTree run = (.error cause, after)) :
    after = run := by
  rcases expect_bind_eq_error fails with ⟨unchanged, -⟩ | ⟨-, further⟩
  · exact unchanged
  · rw [Attempt.run_get_bind] at further
    rcases Attempt.run_ofExcept_bind_eq_error_iff.1 further with ⟨-, unchanged⟩ | ⟨_, -, last⟩
    · exact unchanged
    · cases last

theorem evaluateConditions_eq_error (fails : evaluateConditions run = (.error cause, after)) :
    after = run := by
  rcases expect_bind_eq_error fails with ⟨unchanged, -⟩ | ⟨-, further⟩
  · exact unchanged
  · exact ofExcept_set_eq_error further

theorem buildProperties_eq_error (fails : buildProperties run = (.error cause, after)) :
    after = run := by
  rcases expect_bind_eq_error fails with ⟨unchanged, -⟩ | ⟨-, further⟩
  · exact unchanged
  · cases further

theorem checkRules_eq_error (fails : checkRules run = (.error cause, after)) : after = run := by
  rcases expect_bind_eq_error fails with ⟨unchanged, -⟩ | ⟨-, further⟩
  · exact unchanged
  · rw [Attempt.run_get_bind] at further
    rcases broken : run.catalog.rules.find? fun rule => !run.conditions.isTrue rule.name with
      _ | rule
    · simp only [broken] at further
      cases further
    · simp only [broken] at further
      cases further
      rfl

/-! ## Conditions that have been added -/

theorem contains_insert {table : Condition.Table} {name other : String} {entry : Condition.Entry} :
    (table.insert name entry).contains other ↔ other = name ∨ table.contains other := by
  rw [Condition.Table.contains_iff, Condition.Table.contains_iff]
  have inserted := table.entries.get?_insert name other entry
  by_cases same : other = name
  · rw [if_pos same] at inserted
    exact ⟨fun _ => .inl same, fun _ => ⟨entry, inserted⟩⟩
  · rw [if_neg same] at inserted
    simp only [Condition.Table.insert, inserted, same, false_or]

theorem contains_foldl_seedConfiguration {requested : NameMap Bool} {name : String}
    {configurations : List Configuration} {table : Condition.Table} :
    (configurations.foldl (seedConfiguration requested) table).contains name ↔
      (∃ configuration ∈ configurations, configuration.name = name) ∨ table.contains name := by
  induction configurations generalizing table with
  | nil => simp
  | cons first rest ih =>
    have added : (seedConfiguration requested table first).contains name ↔
        first.name = name ∨ table.contains name :=
      contains_insert.trans (or_congr_left eq_comm)
    rw [List.foldl_cons, ih, added, List.exists_mem_cons_iff, or_left_comm, or_assoc]

/-- Only conditions whose names are free and whose texts are formulas are added. -/
theorem AddsFormulas.free {table final : Condition.Table} {all : List NamedFormula}
    (adds : AddsFormulas table all final) {named : NamedFormula} (member : named ∈ all) :
    table.contains named.name = false ∧ ∃ formula, named.formula = .ok formula := by
  induction adds with
  | nil => cases member
  | @cons table _ first rest formula free parses further ih =>
    rcases List.mem_cons.1 member with rfl | later
    · exact ⟨free, formula, parses⟩
    · obtain ⟨unknown, formula⟩ := ih later
      refine ⟨?_, formula⟩
      cases known : table.contains named.name
      · rfl
      · rw [contains_insert.2 (.inr known)] at unknown
        cases unknown

theorem seedFormula_eq_error {named : NamedFormula}
    (fails : seedFormula named run = (.error cause, after)) :
    after = run ∧ cause.concernsFormula ∧
      (run.conditions.contains named.name ∨ ∃ why, named.formula = .error why) := by
  rw [seedFormula, Attempt.run_get_bind] at fails
  split at fails
  · rename_i known
    cases fails
    exact ⟨rfl, rfl, .inl known⟩
  · rcases Attempt.run_ofExcept_bind_eq_error_iff.1 fails with ⟨same, unchanged⟩ | ⟨_, -, further⟩
    · cases malformed : named.formula with
      | error why =>
        rw [malformed] at same
        cases same
        exact ⟨unchanged, rfl, .inr ⟨why, rfl⟩⟩
      | ok formula =>
        rw [malformed] at same
        cases same
    · cases further

/-- When conditions cannot be added, the table has grown, and one of them has a name that is taken
now or a text that is no formula. -/
theorem forM_seedFormula_eq_error {all : List NamedFormula}
    (fails : all.forM seedFormula run = (.error cause, after)) :
    cause.concernsFormula ∧ (∃ table, after = { run with conditions := table }) ∧
      (∀ name, run.conditions.contains name → after.conditions.contains name) ∧
      ∃ blamed ∈ all, after.conditions.contains blamed.name ∨ ∃ why, blamed.formula = .error why := by
  induction all generalizing run with
  | nil => cases fails
  | cons first rest ih =>
    rcases Attempt.run_bind_eq_error_iff.1 fails with now | ⟨_, middle, adds, later⟩
    · obtain ⟨rfl, concerns, blamed⟩ := seedFormula_eq_error now
      exact ⟨concerns, ⟨_, rfl⟩, fun _ known => known, first, List.mem_cons_self, blamed⟩
    · obtain ⟨-, formula, -, rfl⟩ := seedFormula_eq_ok adds
      obtain ⟨concerns, ⟨table, same⟩, grows, -⟩ := ih later
      subst same
      exact ⟨concerns, ⟨table, rfl⟩, fun name known => grows name (contains_insert.2 (.inr known)),
        first, List.mem_cons_self, .inl (grows _ (contains_insert.2 (.inl rfl)))⟩

/-- Adding the conditions fails when one of them has a name that is taken or a text that is no
formula, whatever the table holds besides. -/
theorem forM_seedFormula_fails {all : List NamedFormula} {blamed : NamedFormula}
    (member : blamed ∈ all)
    (bad : run.conditions.contains blamed.name ∨ ∃ why, blamed.formula = .error why) :
    ∃ cause after, all.forM seedFormula run = (.error cause, after) := by
  rcases seeds : all.forM seedFormula run with ⟨cause | ⟨⟩, after⟩
  · exact ⟨cause, after, rfl⟩
  · obtain ⟨table, adds, -⟩ := forM_seedFormula_eq_ok seeds
    obtain ⟨free, formula, parses⟩ := adds.free member
    rcases bad with known | ⟨why, malformed⟩
    · rw [free] at known
      cases known
    · rw [parses] at malformed
      cases malformed

/-- The formulas are added to a table that holds the configurations. -/
theorem seedConditions_at (reached : run.stage = .objectsExtracted) {requested : NameMap Bool}
    (requests : requestedValues run.catalog run.request = .ok requested) :
    seedConditions run =
      ((run.catalog.defines ++ run.catalog.rules).forM seedFormula >>= fun _ =>
        reach .conditionsSeeded : StepM Unit)
      { run with conditions :=
          run.catalog.configurations.values.foldl (seedConfiguration requested) run.conditions } := by
  rw [seedConditions, expect_bind_eq _ reached, Attempt.run_get_bind, Attempt.run_bind, requests]
  rfl

/-- Seeding fails before it adds anything, or else over a formula, and then it fails again. -/
theorem seedConditions_eq_error (fails : seedConditions run = (.error cause, after)) :
    after = run ∨ cause.concernsFormula ∧ (∃ table, after = { run with conditions := table }) ∧
      ∃ cause' again, seedConditions after = (.error cause', again) := by
  rcases expect_bind_eq_error fails with ⟨unchanged, -⟩ | ⟨reached, further⟩
  · exact .inl unchanged
  rw [Attempt.run_get_bind] at further
  rcases Attempt.run_ofExcept_bind_eq_error_iff.1 further with ⟨-, unchanged⟩ |
    ⟨requested, requests, -⟩
  · exact .inl unchanged
  rw [seedConditions_at reached requests] at fails
  rcases Attempt.run_bind_eq_error_iff.1 fails with seeds | ⟨_, _, -, last⟩
  · obtain ⟨concerns, ⟨table, same⟩, -, blamed, member, bad⟩ := forM_seedFormula_eq_error seeds
    subst same
    refine .inr ⟨concerns, ⟨table, rfl⟩, ?_⟩
    -- The second time the configurations are added to a table that holds all names of the first.
    let filled : Run := { run with conditions :=
      run.catalog.configurations.values.foldl (seedConfiguration requested) table }
    have stillBad : filled.conditions.contains blamed.name ∨ ∃ why, blamed.formula = .error why :=
      bad.imp_left fun known => contains_foldl_seedConfiguration.2 (.inr known)
    obtain ⟨cause', again, seedsAgain⟩ := forM_seedFormula_fails member stillBad
    have ready : ({ run with conditions := table } : Run).stage = .objectsExtracted := reached
    rw [seedConditions_at ready requests]
    exact ⟨cause', again, Attempt.run_bind_eq_error_iff.2 (.inl seedsAgain)⟩
  · cases last

/-! ## Text that has been emitted -/

theorem emit_eq_error {node : Node} (fails : emit node run = (.error cause, after)) :
    after = run ∧ cause.concernsText := by
  rw [emit, Attempt.run_get_bind] at fails
  cases content : node.content with
  | text characters =>
    simp only [content] at fails
    rcases Attempt.run_ofExcept_bind_eq_error_iff.1 fails with ⟨same, unchanged⟩ | ⟨_, -, further⟩
    · cases unsettled : run.scope.substitute characters with
      | error why =>
        rw [unsettled] at same
        cases same
        exact ⟨unchanged, rfl⟩
      | ok piece =>
        rw [unsettled] at same
        cases same
    · cases further
  | block condition =>
    simp only [content] at fails
    cases fails
  | declaration declared =>
    simp only [content] at fails
    cases fails

theorem visit_emit_eq_error {tree : Tree} {forest : Forest NodeId}
    (fails : (forest.visit fun id => match tree.node? id with
      | some node => emit node
      | none => pure false : StepM Unit) run = (.error cause, after)) :
    (∃ text, after = { run with output := text }) ∧ cause.concernsText := by
  induction forest generalizing run with
  | nil => cases fails
  | cons id below behind ihBelow ihBehind =>
    rw [Forest.visit] at fails
    rcases found : tree.node? id with _ | node
    · simp only [found] at fails
      exact ihBehind fails
    · simp only [found] at fails
      rcases Attempt.run_bind_eq_error_iff.1 fails with now | ⟨answer, middle, emits, later⟩
      · obtain ⟨rfl, concerns⟩ := emit_eq_error now
        exact ⟨⟨_, rfl⟩, concerns⟩
      obtain ⟨text, same⟩ : ∃ text, middle = { run with output := text } := by
        rcases emit_eq_ok emits with ⟨_, _, -, -, -, same⟩ | ⟨_, -, -, same⟩ | ⟨_, -, -, same⟩
        · exact ⟨_, same⟩
        · exact ⟨run.output, same⟩
        · exact ⟨run.output, same⟩
      subst same
      -- The text that has been emitted before does not matter to what the failure leaves.
      split at later
      · rcases Attempt.run_bind_eq_error_iff.1 later with inside | ⟨_, between, inner, outer⟩
        · obtain ⟨⟨_, same⟩, concerns⟩ := ihBelow inside
          exact ⟨⟨_, same⟩, concerns⟩
        · obtain ⟨pieces, -, same⟩ := visit_emit_eq_ok inner
          subst same
          obtain ⟨⟨_, same⟩, concerns⟩ := ihBehind outer
          exact ⟨⟨_, same⟩, concerns⟩
      · obtain ⟨⟨_, same⟩, concerns⟩ := ihBehind later
        exact ⟨⟨_, same⟩, concerns⟩

/-- The output is begun anew each time. -/
theorem generateOutput_output (text : String) (reached : run.stage = .rulesChecked) :
    generateOutput { run with output := text } = generateOutput run := by
  have ready : ({ run with output := text } : Run).stage = .rulesChecked := reached
  rw [generateOutput, expect_bind_eq _ ready, expect_bind_eq _ reached]
  rfl

theorem generateOutput_eq_error (fails : generateOutput run = (.error cause, after)) :
    after = run ∨ cause.concernsText ∧ (∃ text, after = { run with output := text }) ∧
      generateOutput after = (.error cause, after) := by
  rcases expect_bind_eq_error fails with ⟨unchanged, -⟩ | ⟨reached, further⟩
  · exact .inl unchanged
  rw [Attempt.run_modify_bind, Attempt.run_get_bind] at further
  rcases Attempt.run_bind_eq_error_iff.1 further with visits | ⟨_, _, -, last⟩
  · obtain ⟨⟨text, same⟩, concerns⟩ := visit_emit_eq_error visits
    refine .inr ⟨concerns, ⟨text, same⟩, ?_⟩
    rw [same, generateOutput_output text reached, fails, same]
  · cases last

/-! ## The commit -/

theorem commit_eq_error (fails : commit (run, store) = (.error cause, after, left)) :
    after = run ∧ left = store := by
  by_cases ready : run.stage = .outputGenerated
  · rcases commit_cases ready fails with ⟨_, -, unchanged⟩ | ⟨_, succeeded, -⟩
    · rw [commit_eq ready] at fails
      split at fails <;> cases fails
      exact ⟨rfl, unchanged⟩
    · cases succeeded
  · rw [commit_of_ne store ready] at fails
    cases fails
    exact ⟨rfl, rfl⟩

/-! ## All parts -/

/-- What a part that fails leaves of a run: everything, but for the conditions when they cannot all be
added, and for the output when a text cannot be emitted. -/
structure Part.Leaves (part : Part) (cause : RunError) (run after : Run) : Prop where
  rest : after = { run with conditions := after.conditions, output := after.output }
  conditions : after.conditions ≠ run.conditions →
    part = .step .seedConditions ∧ cause.concernsFormula
  output : after.output ≠ run.output → part = .step .generateOutput ∧ cause.concernsText

theorem Part.Leaves.refl (part : Part) (cause : RunError) (run : Run) :
    part.Leaves cause run run :=
  ⟨rfl, absurd rfl, absurd rfl⟩

/-- A step that fails leaves all or part of the run as it was, and fails again. -/
theorem Step.leaves_of_error {step : Step} (fails : step.perform store run = (.error cause, after)) :
    (Part.step step).Leaves cause run after ∧
      (step.perform store after = (.error cause, after) ∨
        cause.concernsFormula ∧ ∃ cause' again, step.perform store after = (.error cause', again)) := by
  -- Most steps leave the run unchanged, and then the second call is the first one.
  have unchanged : after = run → (Part.step step).Leaves cause run after ∧
      (step.perform store after = (.error cause, after) ∨ cause.concernsFormula ∧
        ∃ cause' again, step.perform store after = (.error cause', again)) := by
    rintro rfl
    exact ⟨.refl _ _ _, .inl fails⟩
  cases step with
  | parse => exact unchanged (parse_eq_error fails)
  | extractDefinitions => exact unchanged (extractDefinitions_eq_error fails)
  | seedConditions =>
    rcases seedConditions_eq_error fails with same | ⟨concerns, ⟨table, rfl⟩, failsAgain⟩
    · exact unchanged same
    · exact ⟨⟨rfl, fun _ => ⟨rfl, concerns⟩, absurd rfl⟩, .inr ⟨concerns, failsAgain⟩⟩
  | filterTree => exact unchanged (filterTree_eq_error fails)
  | validateTree => exact unchanged (validateTree_eq_error fails)
  | evaluateConditions => exact unchanged (evaluateConditions_eq_error fails)
  | buildProperties => exact unchanged (buildProperties_eq_error fails)
  | checkRules => exact unchanged (checkRules_eq_error fails)
  | generateOutput =>
    rcases generateOutput_eq_error fails with same | ⟨concerns, ⟨text, rfl⟩, failsAgain⟩
    · exact unchanged same
    · exact ⟨⟨rfl, absurd rfl, fun _ => ⟨rfl, concerns⟩⟩, .inl failsAgain⟩

theorem answer_commit_eq_error (answers : answer .commit (run, store) = (.error cause, after, left)) :
    after = run ∧ left = store := by
  rw [answer_commit] at answers
  split at answers
  · cases answers
  · rename_i commits
    cases answers
    exact commit_eq_error commits

/-- A part that fails leaves the stage as it was. -/
theorem Part.stage_of_error {part : Part}
    (answers : answer part.call (run, store) = (.error cause, after, left)) :
    after.stage = run.stage ∧ left = store := by
  cases part with
  | step taken =>
    obtain ⟨performs, unwritten⟩ := answer_step_eq_error answers
    obtain ⟨leaves, -⟩ := Step.leaves_of_error performs
    rw [leaves.rest]
    exact ⟨rfl, unwritten⟩
  | commit =>
    obtain ⟨rfl, unwritten⟩ := answer_commit_eq_error answers
    exact ⟨rfl, unwritten⟩

/-- A part that fails changes no file, and nothing of the run but its conditions, when they cannot all
be added, or its output, when a text cannot be emitted. Called again, it fails again, and with the
same result unless the failure was about a condition that is being added. -/
theorem Part.failure_keeps {part : Part}
    (fails : answer part.call (run, store) = (.error cause, after, left)) :
    left = store ∧ part.Leaves cause run after ∧
      (cause.concernsFormula = false → answer part.call (after, left) = (.error cause, after, left)) ∧
      ∃ cause' again, answer part.call (after, left) = (.error cause', again, left) := by
  cases part with
  | step taken =>
    obtain ⟨performs, rfl⟩ := answer_step_eq_error fails
    obtain ⟨leaves, same | ⟨concerns, cause', again, failsAgain⟩⟩ := Step.leaves_of_error performs
    · have repeats : answer (.step taken) (after, left) = (.error cause, after, left) := by
        rw [answer_step, same]
      exact ⟨rfl, leaves, fun _ => repeats, cause, after, repeats⟩
    · refine ⟨rfl, leaves, fun other => ?_, cause', again, ?_⟩
      · rw [concerns] at other
        cases other
      · show answer (.step taken) (after, left) = _
        rw [answer_step, failsAgain]
  | commit =>
    obtain ⟨rfl, rfl⟩ := answer_commit_eq_error fails
    exact ⟨rfl, .refl _ _ _, fun _ => fails, cause, after, fails⟩

/-- A run that has been taken through steps, whatever came of them. -/
def exReached (store : Store) (steps : List Step) : Run :=
  steps.foldl (fun run step => (answer (.step step) (run, store)).2.1)
    (start ⟨"t", "o", [], [], .empty, .yes⟩ "")

/-- A template whose second condition is no formula. -/
def exClash : Store := exTemplate "<define name=\"a\">true</define><define name=\"b\">(</define>"

/-- A template whose second text has no end. -/
def exEndless : Store := exTemplate
  "<define name=\"c\">true</define><property name=\"p\">##p##</property>x<c>##p##</c>"

theorem exEndless_leaves :
    let part := Part.step .generateOutput
    let run := exReached exEndless Step.all.dropLast
    let after := exReached exEndless Step.all
    let cause : RunError := .unsettledText 1 ⟨64, "p"⟩
    answer part.call (run, exEndless) = (.error cause, after, exEndless) ∧
      exEndless = exEndless ∧ part.Leaves cause run after ∧
      (cause.concernsFormula = false →
        answer part.call (after, exEndless) = (.error cause, after, exEndless)) ∧
      ∃ cause' again, answer part.call (after, exEndless) = (.error cause', again, exEndless) := by
  intro part run after cause
  have fails : answer part.call (run, exEndless) = (.error cause, after, exEndless) := by
    show (_ : Except RunError Reply × Run × Store) = _
    decide +kernel
  exact ⟨fails, Part.failure_keeps fails⟩

/-- A failing step can leave a mark: seeding keeps the conditions that it has added, so that it fails
for another reason when it is called again, and emitting keeps the text that has been emitted. -/
theorem exClash_fails_otherwise :
    (let before := (exReached exClash [.parse, .extractDefinitions], exClash)
      let first := answer (.step .seedConditions) before
      let second := answer (.step .seedConditions) first.2
      first.1 = .error (.malformedFormula "b" 1 (.malformed 2 .unexpectedEnd)) ∧
        second.1 = .error (.duplicateCondition "a" 1) ∧
        before.1.conditions.names = [] ∧ first.2.1.conditions.names = ["a"]) ∧
      let before := (exReached exEndless Step.all.dropLast, exEndless)
      let first := answer (.step .generateOutput) before
      first.1 = .error (.unsettledText 1 ⟨64, "p"⟩) ∧
        before.1.output = "" ∧ first.2.1.output = "x" := by
  decide +kernel

end Run

end ConfigTemplate
