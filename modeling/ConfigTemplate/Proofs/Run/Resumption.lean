import ConfigTemplate.Proofs.Document.Visit
import ConfigTemplate.Proofs.Run.Decided
import ConfigTemplate.Proofs.Run.Seeded

/-!
# Runs that are completed later

A run can make its first steps one by one and then be completed. Completing it makes all steps again,
of which only parsing may be made a second time. So a run that has just been parsed comes to the same
as one from the start, and a run that has come further is refused, unless its destination exists and
is left alone.

Results:
1. `Step.timely`: a step at its stage does not fail over the stage, and `configure_timely`: nor does a
   run from the start.
2. `begun_of_steps`: how far a run is behind its first steps, and what it has kept.
3. `complete_resumed`: when completing it comes to the same as a run from the start, and to what else.
-/

namespace ConfigTemplate

/-- A step has been made at the wrong stage. -/
def RunError.isOutOfOrder : RunError → Bool
  | .outOfOrder _ _ => true
  | _ => false

theorem Stage.position_inj {first second : Stage} (same : first.position = second.position) :
    first = second := by
  cases first <;> cases second <;> first | rfl | cases same

namespace Run

open Attempt
open Document (Content Node NodeId Tree)

variable {α β : Type} {run after : Run} {store left : Store} {cause : RunError} {request : Request}
  {directory : String}

/-! ## Failures over the stage -/

/-- The computation does not fail over the stage. -/
abbrev Timely (computation : StepM α) : Prop :=
  FailsOnly (·.isOutOfOrder = false) computation

theorem timely_reach (stage : Stage) : Timely (reach stage) := failsOnly_modify _

theorem checkBlock_timely {conditions : Condition.Table} {node : Node}
    (fails : checkBlock conditions node = .error cause) : cause.isOutOfOrder = false := by
  unfold checkBlock at fails
  split at fails
  · split at fails
    · cases fails
    · cases fails
      rfl
  · cases fails
  · cases fails

/-- Checking the blocks fails over conditions that are not in the table. -/
theorem visit_checkBlock_timely {conditions : Condition.Table} {tree : Tree}
    (fails : (tree.visit fun _ node => checkBlock conditions node) = .error cause) :
    cause.isOutOfOrder = false := by
  obtain ⟨id, unknown⟩ := Forest.exists_error_of_visit fails
  split at unknown
  · exact checkBlock_timely unknown
  · cases unknown

/-! ## Steps at their stage -/

/-- Behind the check of its stage a step does not fail over the stage. -/
theorem timely_of_expect {stage : Stage} {rest : Unit → StepM α} (reached : run.stage = stage)
    (fails : (expect stage >>= rest : StepM α) run = (.error cause, after))
    (timely : Timely (rest ())) : cause.isOutOfOrder = false := by
  rw [expect_bind_eq rest reached] at fails
  exact timely run cause after fails

theorem timely_seedFormula (named : NamedFormula) : Timely (seedFormula named) :=
  failsOnly_get.bind fun run => by
    split
    · exact failsOnly_throw rfl
    · exact FailsOnly.bind (failsOnly_mapError _ fun _ => rfl) fun _ => failsOnly_set _

theorem timely_emit (node : Node) : Timely (emit node) :=
  failsOnly_get.bind fun run => by
    split
    · exact FailsOnly.bind (failsOnly_mapError _ fun _ => rfl) fun _ =>
        (failsOnly_set _).bind fun _ => failsOnly_pure _
    · exact failsOnly_pure _
    · exact failsOnly_pure _

theorem requestedValues_timely {catalog : Catalog}
    (fails : requestedValues catalog request = .error cause) : cause.isOutOfOrder = false := by
  have known := requestedValues_or_unknown catalog request
  cases unknown : firstUnknown catalog request.names with
  | some name =>
    rw [unknown] at known
    cases known.symm.trans fails
    rfl
  | none =>
    rw [unknown] at known
    obtain ⟨requested, succeeds⟩ := known
    cases succeeds.symm.trans fails

theorem timely_parse (store : Store) : Timely (parse store) :=
  failsOnly_get.bind fun run => by
    split
    · exact FailsOnly.bind (failsOnly_mapError _ fun _ => rfl) fun _ =>
        FailsOnly.bind (failsOnly_mapError _ fun _ => rfl) fun _ => failsOnly_set _
    · exact failsOnly_pure _

/-- A step that is made at its stage does not fail over the stage. -/
theorem Step.timely {step : Step} (reached : run.stage = step.stage)
    (fails : step.perform store run = (.error cause, after)) : cause.isOutOfOrder = false := by
  cases step with
  | parse => exact timely_parse store run cause after fails
  | extractDefinitions =>
    refine timely_of_expect reached fails ?_
    exact failsOnly_get.bind fun _ =>
      FailsOnly.bind (failsOnly_mapError _ fun _ => rfl) fun _ => failsOnly_set _
  | seedConditions =>
    refine timely_of_expect reached fails ?_
    refine failsOnly_get.bind fun _ =>
      (failsOnly_ofExcept fun _ => requestedValues_timely).bind fun _ => ?_
    exact (failsOnly_set _).bind fun _ =>
      (failsOnly_forM timely_seedFormula _).bind fun _ => timely_reach _
  | filterTree =>
    refine timely_of_expect reached fails ?_
    exact failsOnly_modify _
  | validateTree =>
    refine timely_of_expect reached fails ?_
    refine failsOnly_get.bind fun run =>
      FailsOnly.bind (failsOnly_ofExcept fun _ fails => ?_) fun _ => timely_reach _
    exact visit_checkBlock_timely fails
  | evaluateConditions =>
    refine timely_of_expect reached fails ?_
    exact failsOnly_get.bind fun _ =>
      FailsOnly.bind (failsOnly_mapError _ fun _ => rfl) fun _ => failsOnly_set _
  | buildProperties =>
    refine timely_of_expect reached fails ?_
    exact failsOnly_modify _
  | checkRules =>
    refine timely_of_expect reached fails ?_
    refine failsOnly_get.bind fun run => ?_
    split
    · exact failsOnly_throw rfl
    · exact timely_reach _
  | generateOutput =>
    refine timely_of_expect reached fails ?_
    refine (failsOnly_modify _).bind fun _ => failsOnly_get.bind fun run => ?_
    refine (Forest.failsOnly_visit (fun id => ?_) _).bind fun _ => timely_reach _
    split
    · exact timely_emit _
    · exact failsOnly_pure _

/-! ## The first steps -/

/-- A run that has made the given number of steps, and has kept its request. Warnings come from the
seventh step only. -/
structure Begun (request : Request) (directory : String) (count : Nat) (run : Run) : Prop where
  stage : run.stage.position = count
  outputPath : run.outputPath = Path.join directory request.output
  request : run.request = request
  warnings : count ≤ 6 → run.warnings = []

theorem begun_start (request : Request) (directory : String) :
    Begun request directory 0 (start request directory) := ⟨rfl, rfl, rfl, fun _ => rfl⟩

theorem Step.keeps_of_ok {step : Step} (reached : run.stage = step.stage)
    (performs : step.perform store run = (.ok (), after)) :
    after.request = run.request ∧ after.outputPath = run.outputPath ∧
      (step ≠ .buildProperties → after.warnings = run.warnings) := by
  cases step with
  | parse =>
    obtain ⟨_, _, -, -, rfl⟩ := parse_eq_ok reached performs
    exact ⟨rfl, rfl, fun _ => rfl⟩
  | extractDefinitions =>
    obtain ⟨_, -, rfl⟩ := extractDefinitions_eq_ok performs
    exact ⟨rfl, rfl, fun _ => rfl⟩
  | seedConditions =>
    obtain ⟨_, _, -, -, rfl⟩ := seedConditions_eq_ok performs
    exact ⟨rfl, rfl, fun _ => rfl⟩
  | filterTree =>
    rw [filterTree_eq_ok performs]
    exact ⟨rfl, rfl, fun _ => rfl⟩
  | validateTree =>
    obtain ⟨-, rfl⟩ := validateTree_eq_ok performs
    exact ⟨rfl, rfl, fun _ => rfl⟩
  | evaluateConditions =>
    obtain ⟨_, -, rfl⟩ := evaluateConditions_eq_ok performs
    exact ⟨rfl, rfl, fun _ => rfl⟩
  | buildProperties =>
    obtain ⟨_, rfl⟩ := buildProperties_eq_ok performs
    exact ⟨rfl, rfl, absurd rfl⟩
  | checkRules =>
    obtain ⟨-, rfl⟩ := checkRules_eq_ok performs
    exact ⟨rfl, rfl, fun _ => rfl⟩
  | generateOutput =>
    obtain ⟨_, -, rfl⟩ := generateOutput_eq_ok performs
    exact ⟨rfl, rfl, fun _ => rfl⟩

theorem Step.position_stage (place : Fin all.length) : all[place].stage.position = place := by
  revert place
  decide

/-- The first of the steps that are left belongs to the stage that has been reached. -/
theorem Step.stage_of_next {count : Nat} {step : Step} {steps : List Step}
    (next : step :: steps <+: all.drop count) :
    step.stage.position = count ∧ steps <+: all.drop (count + 1) := by
  obtain ⟨rest, left⟩ := next
  have found : all[count]? = some step := by
    have first := congrArg List.head? left
    rw [List.head?_drop] at first
    exact first.symm
  obtain ⟨inside, rfl⟩ := List.getElem?_eq_some_iff.1 found
  refine ⟨position_stage ⟨count, inside⟩, rest, ?_⟩
  rw [← List.tail_drop, ← left]
  rfl

variable {count : Nat} {steps : List Step}

theorem Begun.next {step : Step} (begun : Begun request directory count run)
    (placed : step.stage.position = count)
    (performs : step.perform store run = (.ok (), after)) :
    Begun request directory (count + 1) after := by
  have reached : run.stage = step.stage := Stage.position_inj (begun.stage.trans placed.symm)
  obtain ⟨sameRequest, samePath, silent⟩ := Step.keeps_of_ok reached performs
  refine ⟨?_, samePath.trans begun.outputPath, sameRequest.trans begun.request, fun early => ?_⟩
  · rw [Step.position_of_ok reached performs, begun.stage]
  · have other : step ≠ .buildProperties := by
      rintro rfl
      rw [Step.stage, Stage.position] at placed
      omega
    exact (silent other).trans (begun.warnings (Nat.le_of_succ_le early))

/-- Steps that are made in their order lead a run on by their number. -/
theorem Begun.further (begun : Begun request directory count run)
    (next : steps <+: Step.all.drop count)
    (performs : (steps.forM (Step.perform store) : StepM Unit) run = (.ok (), after)) :
    Begun request directory (count + steps.length) after := by
  induction steps generalizing count run with
  | nil =>
    cases performs
    exact begun
  | cons step steps ih =>
    obtain ⟨placed, next⟩ := Step.stage_of_next next
    obtain ⟨middle, first, further⟩ := forM_cons_eq_ok performs
    have further := ih (begun.next placed first) next further
    rwa [Nat.add_right_comm] at further

/-- Steps that are made in their order do not fail over the stage. -/
theorem Begun.timely (begun : Begun request directory count run)
    (next : steps <+: Step.all.drop count)
    (fails : (steps.forM (Step.perform store) : StepM Unit) run = (.error cause, after)) :
    cause.isOutOfOrder = false := by
  induction steps generalizing count run with
  | nil => cases fails
  | cons step steps ih =>
    obtain ⟨placed, next⟩ := Step.stage_of_next next
    rcases Attempt.run_bind_eq_error_iff.1 fails with now | ⟨⟨⟩, middle, first, later⟩
    · exact Step.timely (Stage.position_inj (begun.stage.trans placed.symm)) now
    · exact ih (begun.next placed first) next later

theorem begun_of_steps
    (performs : ((Step.all.take count).forM (Step.perform store) : StepM Unit)
      (start request directory) = (.ok (), run)) (within : count ≤ 9) :
    Begun request directory count run := by
  have begun := (begun_start request directory).further (List.take_prefix count Step.all) performs
  rwa [List.length_take_of_le within, Nat.zero_add] at begun

theorem commit_timely (ready : run.stage = .outputGenerated) {after : Run × Store}
    (fails : commit (run, store) = (.error cause, after)) : cause.isOutOfOrder = false := by
  rw [commit_eq ready] at fails
  split at fails
  · cases fails
  · cases fails
    rfl

end Run

/-! ## Completing a run -/

/-- The destination of a request exists and must be left alone. -/
def Request.Skips (store : Store) (request : Request) (directory : String) : Prop :=
  request.overwrite = .no ∧ store.pathExists (Path.join directory request.output)

namespace Run

variable {store left : Store} {request : Request} {directory : String} {run : Run} {count : Nat}

namespace Begun

/-- A run whose destination is left alone reports all its warnings and makes no step. -/
theorem complete_of_skips (begun : Begun request directory count run)
    (skips : request.Skips store directory) :
    (complete (run, store)).1 = .ok ⟨Path.join directory request.output, .skipped,
        run.warnings ++ [.outputExists (Path.join directory request.output)]⟩ ∧
      (complete (run, store)).2.2 = store := by
  have alone : run.request.overwrite = .no ∧ store.pathExists run.outputPath := by
    rw [begun.request, begun.outputPath]
    exact skips
  rw [complete_eq, if_pos alone, ← begun.outputPath]
  exact ⟨rfl, rfl⟩

theorem complete_of_writes (begun : Begun request directory count run)
    (writes : ¬ request.Skips store directory) :
    complete (run, store) =
      match (Step.all.forM (Step.perform store) : StepM Unit) run with
      | (.error cause, after) => (.error cause, after, store)
      | (.ok (), after) =>
        match commit (after, store) with
        | (.error cause, state) => (.error cause, state)
        | (.ok outcome, last, later) => (.ok (last.report outcome), last, later) := by
  have free : ¬ (run.request.overwrite = .no ∧ store.pathExists run.outputPath) := by
    rw [begun.request, begun.outputPath]
    exact writes
  rw [complete_eq, if_neg free]
  rfl

/-- A run that has come further than its template cannot be completed. -/
theorem complete_of_late (begun : Begun request directory count run) (late : 2 ≤ count)
    (writes : ¬ request.Skips store directory) :
    complete (run, store) = (.error (.outOfOrder .parsed run.stage), run, store) := by
  have reached := begun.stage
  have parsed : run.stage ≠ .unparsed := by
    intro same
    rw [same, Stage.position] at reached
    omega
  have further : run.stage ≠ .parsed := by
    intro same
    rw [same, Stage.position] at reached
    omega
  have refused : (Step.all.forM (Step.perform store) : StepM Unit) run =
      (.error (.outOfOrder .parsed run.stage), run) := by
    refine Attempt.run_bind_eq_error_iff.2 (.inr ⟨(), run, parse_rests store parsed, ?_⟩)
    exact Attempt.run_bind_eq_error_iff.2 (.inl (expect_bind_of_ne _ further))
  rw [begun.complete_of_writes writes, refused]

/-- A run that has just been parsed makes the other steps as a run from the start does. -/
theorem forM_of_parsed (begun : Begun request directory 1 run)
    (parses : parse store (start request directory) = (.ok (), run)) :
    (Step.all.forM (Step.perform store) : StepM Unit) run =
      (Step.all.forM (Step.perform store) : StepM Unit) (start request directory) := by
  have parsed : run.stage ≠ .unparsed := by
    intro same
    have reached := begun.stage
    rw [same] at reached
    cases reached
  show (parse store >>= fun _ => Step.all.tail.forM (Step.perform store) : StepM Unit) run =
    (parse store >>= fun _ => Step.all.tail.forM (Step.perform store) : StepM Unit)
      (start request directory)
  rw [Attempt.run_bind, Attempt.run_bind, parse_rests store parsed, parses]

end Begun

end Run

open Run

variable {store left : Store} {request : Request} {directory : String} {run : Run} {count : Nat}

theorem configure_eq_complete (store : Store) (request : Request) (directory : String) :
    configure store request directory =
      ((complete (start request directory, store)).1,
        (complete (start request directory, store)).2.2) := rfl

/-- A run from the start does not fail over the stage. -/
theorem configure_timely {cause : RunError}
    (fails : (configure store request directory).1 = .error cause) : cause.isOutOfOrder = false := by
  rw [configure_eq_complete] at fails
  have begun := begun_start request directory
  have next : Step.all <+: Step.all.drop 0 := List.prefix_rfl
  by_cases skips : request.Skips store directory
  · rw [(begun.complete_of_skips skips).1] at fails
    cases fails
  rw [begun.complete_of_writes skips] at fails
  rcases prepares : (Step.all.forM (Step.perform store) : StepM Unit) (start request directory) with
    ⟨why | ⟨⟩, run⟩
  · rw [prepares] at fails
    cases fails
    exact begun.timely next prepares
  · rw [prepares] at fails
    dsimp only at fails
    have ready : run.stage = .outputGenerated := Stage.position_inj (begun.further next prepares).stage
    rcases commits : commit (run, store) with ⟨why | outcome, state⟩
    · rw [commits] at fails
      cases fails
      exact commit_timely ready commits
    · rw [commits] at fails
      cases fails

/-- Where the destination is left alone, only the warnings that have been given make a difference. -/
theorem Run.Begun.agrees_of_skips (begun : Begun request directory count run)
    (skips : request.Skips store directory) :
    ((complete (run, store)).1, (complete (run, store)).2.2) = configure store request directory ↔
      run.warnings = [] := by
  obtain ⟨report, files⟩ := begun.complete_of_skips skips
  obtain ⟨freshReport, freshFiles⟩ := (begun_start request directory).complete_of_skips skips
  rw [configure_eq_complete, report, files, freshReport, freshFiles]
  simp [start]

/-- A run whose template has been parsed at most comes to the same as one from the start. -/
theorem Run.Begun.agrees_of_early (begun : Begun request directory count run) (early : count ≤ 1)
    (performs : ((Step.all.take count).forM (Step.perform store) : StepM Unit)
      (start request directory) = (.ok (), run)) (writes : ¬ request.Skips store directory) :
    ((complete (run, store)).1, (complete (run, store)).2.2) = configure store request directory := by
  rw [configure_eq_complete]
  match count with
  | 0 =>
    cases performs
    rfl
  | 1 =>
    obtain ⟨middle, parses, none⟩ := forM_cons_eq_ok performs
    cases none
    rw [begun.complete_of_writes writes, begun.forM_of_parsed parses,
      (begun_start request directory).complete_of_writes writes]

/-- When the first steps of a run have been made, completing it gives the same result and the same files
as a run from the start just if no more than the template has been parsed, or the destination is left
alone and no warning has been given so far. Otherwise it is refused or, where the destination is left
alone, reports these warnings too. -/
theorem complete_resumed (within : count ≤ 9)
    (begins : ((Step.all.take count).forM make : FileStepM Unit) (start request directory, store) =
      (.ok (), run, left)) :
    let path := Path.join directory request.output
    let completed := complete (run, left)
    left = store ∧ run.stage.position = count ∧ (count ≤ 6 → run.warnings = []) ∧
    ((completed.1, completed.2.2) = configure store request directory ↔
      count ≤ 1 ∨ request.Skips store directory ∧ run.warnings = []) ∧
    (2 ≤ count → ¬ request.Skips store directory →
      completed = (.error (.outOfOrder .parsed run.stage), run, store)) ∧
    (request.Skips store directory →
      completed.1 = .ok ⟨path, .skipped, run.warnings ++ [.outputExists path]⟩ ∧
        completed.2.2 = store) := by
  intro path completed
  rw [forM_make] at begins
  rcases performs : ((Step.all.take count).forM (Step.perform store) : StepM Unit)
    (start request directory) with ⟨result, reached⟩
  rw [performs] at begins
  cases begins
  have begun := begun_of_steps performs within
  refine ⟨rfl, begun.stage, begun.warnings, ?_, fun late writes => begun.complete_of_late late writes,
    fun skips => begun.complete_of_skips skips⟩
  by_cases skips : request.Skips store directory
  · rw [begun.agrees_of_skips skips]
    exact ⟨fun silent => .inr ⟨skips, silent⟩, fun cases => cases.elim
      (fun early => begun.warnings (Nat.le_trans early (by decide))) And.right⟩
  · refine ⟨fun same => .inl ?_, fun cases => cases.elim
      (fun early => begun.agrees_of_early early performs skips) fun ⟨skipped, _⟩ => absurd skipped skips⟩
    by_contra late
    have refused := begun.complete_of_late (Nat.lt_of_not_le late) skips
    -- A run from the start is never refused over its stage.
    have fails : (configure store request directory).1 = .error (.outOfOrder .parsed run.stage) := by
      rw [← same]
      exact congrArg Prod.fst refused
    cases configure_timely fails

/-- A template with a configuration and a property. -/
def exPlain : Store := exTemplate
  "<config name=\"a\" default=\"yes\"/><property name=\"p\">v</property>text<a> ##p##</a>"

def exPlainRequest : Request := ⟨"t", "o", [], [], .empty, .yes⟩

/-- What has been reached when the first steps have been made on the template. -/
def exBegun (count : Nat) : Except RunError Unit × Run × Store :=
  ((Step.all.take count).forM make : FileStepM Unit) (start exPlainRequest "", exPlain)

/-- A run that has generated its output, and has only to commit it, cannot be completed. -/
theorem exPlain_resumed :
    let run := (exBegun 9).2.1
    exBegun 9 = (.ok (), run, exPlain) ∧ run.output = "text v" ∧
      complete (run, exPlain) = (.error (.outOfOrder .parsed .outputGenerated), run, exPlain) := by
  intro run
  have begins : exBegun 9 = (.ok (), run, exPlain) := by decide +kernel
  have output : run.output = "text v" := by decide +kernel
  have writes : ¬ exPlainRequest.Skips exPlain "" := fun skips => nomatch skips.1
  obtain ⟨-, reached, -, -, refused, -⟩ := complete_resumed (Nat.le_refl 9) begins
  have ready : run.stage = .outputGenerated := Stage.position_inj reached
  have refused := refused (by decide) writes
  rw [ready] at refused
  exact ⟨begins, output, refused⟩

/-- Behind two steps a run is refused that creates its output when it is made from the start. -/
theorem exPlain_not_resumed :
    (exBegun 2).1 = .ok () ∧
      (configure exPlain exPlainRequest "").1 = .ok ⟨"o", .created, []⟩ ∧
      (complete (exBegun 2).2).1 = .error (.outOfOrder .parsed .objectsExtracted) := by
  decide +kernel

end ConfigTemplate
