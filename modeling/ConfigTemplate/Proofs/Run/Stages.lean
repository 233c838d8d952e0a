import ConfigTemplate.Proofs.Run.Commit
import ConfigTemplate.Run.Call

/-!
# Stages

A run is driven by ten parts: the steps that lead to the output, and the commit. Each part belongs to
one stage and leads to the next one.

Results:
1. `answer_step`, `answer_commit`: what calling a part comes to.
2. `Part.refuses`, `parse_rests`: a part at the wrong stage fails, except that `parse` does nothing.
3. `Part.position_of_ok`: a part at its stage leads to the next one when it succeeds.
-/

namespace ConfigTemplate

namespace Stage

/-- The number of parts that have been made at a stage. -/
def position : Stage → Nat
  | .unparsed => 0
  | .parsed => 1
  | .objectsExtracted => 2
  | .conditionsSeeded => 3
  | .treeFiltered => 4
  | .treeValidated => 5
  | .conditionsEvaluated => 6
  | .propertiesBuilt => 7
  | .rulesChecked => 8
  | .outputGenerated => 9
  | .committed => 10

end Stage

namespace Run

/-- The stage at which a step is to be made. -/
def Step.stage : Step → Stage
  | .parse => .unparsed
  | .extractDefinitions => .parsed
  | .seedConditions => .objectsExtracted
  | .filterTree => .conditionsSeeded
  | .validateTree => .treeFiltered
  | .evaluateConditions => .treeValidated
  | .buildProperties => .conditionsEvaluated
  | .checkRules => .propertiesBuilt
  | .generateOutput => .rulesChecked

/-- A step, or the commit. -/
inductive Part where
  | step (step : Step)
  | commit
deriving DecidableEq, Repr

namespace Part

/-- The parts in the order in which they are to be made. -/
def all : List Part := Step.all.map .step ++ [.commit]

/-- The call that makes a part. -/
def call : Part → Call
  | .step taken => .step taken
  | .commit => .commit

/-- The stage at which a part is to be made. -/
def stage : Part → Stage
  | .step taken => taken.stage
  | .commit => .outputGenerated

/-- The stage of a part tells its place in the order. -/
theorem all_getElem?_position (part : Part) : all[part.stage.position]? = some part := by
  cases part with
  | step taken => cases taken <;> rfl
  | commit => rfl

end Part

variable {run after : Run} {store left : Store} {cause : RunError} {reply : Reply}

/-! ## Calling a part -/

theorem answer_step (step : Step) (run : Run) (store : Store) :
    answer (.step step) (run, store) =
      match step.perform store run with
      | (.ok (), after) => (.ok .done, after, store)
      | (.error cause, after) => (.error cause, after, store) := by
  show (make step >>= fun _ => pure .done : FileStepM Reply) (run, store) = _
  rw [Attempt.run_bind, make, onRun]
  obtain ⟨cause | ⟨⟩, after⟩ := step.perform store run <;> rfl

theorem answer_commit (run : Run) (store : Store) :
    answer .commit (run, store) =
      match commit (run, store) with
      | (.ok outcome, state) => (.ok (.committed outcome), state)
      | (.error cause, state) => (.error cause, state) := by
  show (commit >>= fun outcome => pure (.committed outcome) : FileStepM Reply) (run, store) = _
  rw [Attempt.run_bind]
  obtain ⟨cause | outcome, state⟩ := commit (run, store) <;> rfl

theorem answer_step_eq_ok {step : Step}
    (answers : answer (.step step) (run, store) = (.ok reply, after, left)) :
    step.perform store run = (.ok (), after) ∧ reply = .done ∧ left = store := by
  rw [answer_step] at answers
  split at answers
  · rename_i performs
    cases answers
    exact ⟨performs, rfl, rfl⟩
  · cases answers

theorem answer_step_eq_error {step : Step}
    (answers : answer (.step step) (run, store) = (.error cause, after, left)) :
    step.perform store run = (.error cause, after) ∧ left = store := by
  rw [answer_step] at answers
  split at answers
  · cases answers
  · rename_i performs
    cases answers
    exact ⟨performs, rfl⟩

/-! ## Checks of the stage -/

theorem expect_of_ne {stage : Stage} (wrong : run.stage ≠ stage) :
    expect stage run = (.error (.outOfOrder stage run.stage), run) := by
  rw [expect, Attempt.run_get_bind, if_pos wrong]
  rfl

theorem expect_bind_of_ne {α : Type} {stage : Stage} (rest : Unit → StepM α)
    (wrong : run.stage ≠ stage) :
    (expect stage >>= rest : StepM α) run = (.error (.outOfOrder stage run.stage), run) := by
  rw [Attempt.run_bind, expect_of_ne wrong]

theorem expect_bind_eq {α : Type} {stage : Stage} (rest : Unit → StepM α)
    (reached : run.stage = stage) : (expect stage >>= rest : StepM α) run = rest () run := by
  rw [Attempt.run_bind, expect_eq_ok_iff.2 ⟨reached, rfl⟩]

/-- A template that has been parsed is not read again. -/
theorem parse_rests (store : Store) (done : run.stage ≠ .unparsed) :
    parse store run = (.ok (), run) := by
  rw [parse, Attempt.run_get_bind, if_neg done]
  rfl

theorem Step.perform_of_ne {step : Step} (store : Store) (later : step ≠ .parse)
    (wrong : run.stage ≠ step.stage) :
    step.perform store run = (.error (.outOfOrder step.stage run.stage), run) := by
  cases step with
  | parse => exact absurd rfl later
  | _ => exact expect_bind_of_ne _ wrong

theorem commit_of_ne (store : Store) (wrong : run.stage ≠ .outputGenerated) :
    commit (run, store) = (.error (.outOfOrder .outputGenerated run.stage), run, store) := by
  rw [commit, Attempt.run_bind, onRun, expect_of_ne wrong]

theorem Part.refuses {part : Part} (store : Store) (later : part ≠ .step .parse)
    (wrong : run.stage ≠ part.stage) :
    answer part.call (run, store) =
      (.error (.outOfOrder part.stage run.stage), run, store) := by
  cases part with
  | step taken =>
    show answer (.step taken) (run, store) = _
    rw [answer_step, Step.perform_of_ne store (fun same => later (same ▸ rfl)) wrong]
    rfl
  | commit =>
    show answer .commit (run, store) = _
    rw [answer_commit, commit_of_ne store wrong]
    rfl

/-! ## Parts that succeed -/

theorem Step.position_of_ok {step : Step} (reached : run.stage = step.stage)
    (performs : step.perform store run = (.ok (), after)) :
    after.stage.position = run.stage.position + 1 := by
  rw [reached]
  cases step with
  | parse =>
    obtain ⟨_, _, -, -, rfl⟩ := parse_eq_ok reached performs
    rfl
  | extractDefinitions =>
    obtain ⟨_, -, rfl⟩ := extractDefinitions_eq_ok performs
    rfl
  | seedConditions =>
    obtain ⟨_, _, -, -, rfl⟩ := seedConditions_eq_ok performs
    rfl
  | filterTree =>
    rw [filterTree_eq_ok performs]
    rfl
  | validateTree =>
    obtain ⟨-, rfl⟩ := validateTree_eq_ok performs
    rfl
  | evaluateConditions =>
    obtain ⟨_, -, rfl⟩ := evaluateConditions_eq_ok performs
    rfl
  | buildProperties =>
    obtain ⟨_, rfl⟩ := buildProperties_eq_ok performs
    rfl
  | checkRules =>
    obtain ⟨-, rfl⟩ := checkRules_eq_ok performs
    rfl
  | generateOutput =>
    obtain ⟨_, -, rfl⟩ := generateOutput_eq_ok performs
    rfl

theorem commit_eq_ok {outcome : Outcome} (ready : run.stage = .outputGenerated)
    (commits : commit (run, store) = (.ok outcome, after, left)) :
    after = { run with stage := .committed } := by
  rw [commit_eq ready] at commits
  split at commits
  · cases commits
    rfl
  · cases commits

theorem Part.position_of_ok {part : Part} (reached : run.stage = part.stage)
    (answers : answer part.call (run, store) = (.ok reply, after, left)) :
    after.stage.position = run.stage.position + 1 := by
  cases part with
  | step taken => exact Step.position_of_ok reached (answer_step_eq_ok answers).1
  | commit =>
    rw [call, answer_commit] at answers
    split at answers
    · rename_i outcome state commits
      cases answers
      rw [commit_eq_ok reached commits, reached]
      rfl
    · cases answers

end Run

end ConfigTemplate
