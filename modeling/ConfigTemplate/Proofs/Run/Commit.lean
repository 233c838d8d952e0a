import ConfigTemplate.Proofs.Files.Commit
import ConfigTemplate.Proofs.Run.Steps

/-!
# Runs change the destination or nothing

The steps that lead to the output leave the files alone, and the commit writes the destination at
most.

Results:
1. `configure_cases`: a request fails, or is skipped, or makes an output that is then committed.
2. `configure_all_or_nothing`: what every result says about the files before and after.
-/

namespace ConfigTemplate

namespace Run

variable {run after : Run} {store later : Store}

/-- The steps that lead to the output leave the files alone. -/
theorem forM_make (steps : List Step) (run : Run) (store : Store) :
    (steps.forM make : FileStepM Unit) (run, store) =
      let (result, after) := (steps.forM (Step.perform store) : StepM Unit) run
      (result, after, store) := by
  induction steps generalizing run with
  | nil => rfl
  | cons step rest ih =>
    show (make step >>= fun _ => rest.forM make : FileStepM Unit) (run, store) =
      let (result, after) :=
        (step.perform store >>= fun _ => rest.forM (Step.perform store) : StepM Unit) run
      (result, after, store)
    rw [Attempt.run_bind, Attempt.run_bind]
    have first : make step (run, store) =
      ((step.perform store run).1, (step.perform store run).2, store) := rfl
    rw [first]
    generalize step.perform store run = result
    obtain ⟨cause | ⟨⟩, middle⟩ := result
    · rfl
    · exact ih middle

theorem commit_eq (ready : run.stage = .outputGenerated) (store : Store) :
    commit (run, store) =
      match store.commit run.outputPath run.output run.request.overwrite with
      | (.ok outcome, later) => (.ok outcome, { run with stage := .committed }, later)
      | (.error cause, later) => (.error (.commitFailed run.outputPath cause), run, later) := by
  have expected : onRun (expect .outputGenerated) (run, store) = (.ok (), run, store) := by
    rw [onRun, expect_eq_ok_iff.2 ⟨ready, rfl⟩]
  rw [commit, Attempt.run_bind, expected]
  dsimp only
  rw [Attempt.run_bind, Attempt.run_get]
  dsimp only
  generalize store.commit run.outputPath run.output run.request.overwrite = committed
  obtain ⟨cause | outcome, later⟩ := committed <;> rfl

/-- A commit that fails leaves the files as they were, and one that succeeds does what its outcome
says. -/
theorem commit_cases {result : Except RunError Outcome} (ready : run.stage = .outputGenerated)
    (commits : commit (run, store) = (result, after, later)) :
    (∃ cause, result = .error cause ∧ later = store) ∨
      ∃ outcome, result = .ok outcome ∧ store.Commits run.outputPath run.output later outcome := by
  rw [commit_eq ready] at commits
  split at commits
  · rename_i outcome written
    cases commits
    rcases Store.commit_cases written with ⟨cause, failed, -⟩ | ⟨_, same, commits⟩
    · cases failed
    · cases same
      exact .inr ⟨_, rfl, commits⟩
  · rename_i cause written
    cases commits
    rcases Store.commit_cases written with ⟨_, -, unchanged⟩ | ⟨_, succeeded, -⟩
    · exact .inl ⟨_, rfl, unchanged⟩
    · cases succeeded

theorem complete_eq (run : Run) (store : Store) :
    complete (run, store) =
      if run.request.overwrite = .no ∧ store.pathExists run.outputPath then
        let run := { run with warnings := run.warnings ++ [.outputExists run.outputPath] }
        (.ok (run.report .skipped), run, store)
      else
        match (Step.all.forM (Step.perform store) : StepM Unit) run with
        | (.error cause, after) => (.error cause, after, store)
        | (.ok (), after) =>
          match commit (after, store) with
          | (.error cause, state) => (.error cause, state)
          | (.ok outcome, last, later) => (.ok (last.report outcome), last, later) := by
  rw [complete, Attempt.run_bind, Attempt.run_get]
  dsimp only
  split
  · rfl
  · rw [Attempt.run_bind, forM_make]
    generalize (Step.all.forM (Step.perform store) : StepM Unit) run = prepared
    obtain ⟨cause | ⟨⟩, after⟩ := prepared
    · rfl
    · dsimp only
      rw [Attempt.run_bind]
      generalize commit (after, store) = committed
      obtain ⟨cause | outcome, last, later⟩ := committed <;> rfl

end Run

variable {store after : Store} {request : Request} {directory : String}

/-- The ways in which a request can be carried out. -/
theorem configure_cases {result : Except RunError Report}
    (configures : configure store request directory = (result, after)) :
    (∃ cause, result = .error cause ∧ after = store) ∨
      (∃ report, result = .ok report ∧ report.outcome = .skipped ∧ after = store) ∨
      ∃ report run, result = .ok report ∧ Run.prepare store request directory = (.ok (), run) ∧
        store.Commits (Path.join directory request.output) run.output after report.outcome := by
  unfold configure at configures
  generalize completes : Run.complete (Run.start request directory, store) = completed at configures
  obtain ⟨result', last, later⟩ := completed
  cases configures
  rw [Run.complete_eq] at completes
  split at completes
  · cases completes
    exact .inr (.inl ⟨_, rfl, rfl, rfl⟩)
  · split at completes
    · cases completes
      exact .inl ⟨_, rfl, rfl⟩
    · rename_i run prepares
      obtain ⟨-, path, ready, -⟩ := Run.prepare_eq_ok prepares
      split at completes
      · rename_i cause state commits
        cases completes
        rcases Run.commit_cases ready commits with ⟨_, -, unchanged⟩ | ⟨_, succeeded, -⟩
        · exact .inl ⟨cause, rfl, unchanged⟩
        · cases succeeded
      · rename_i outcome last' later' commits
        cases completes
        rcases Run.commit_cases ready commits with ⟨_, failed, -⟩ | ⟨_, same, commits⟩
        · cases failed
        · cases same
          exact .inr (.inr ⟨_, run, rfl, prepares, path ▸ commits⟩)

/-- A request that fails, is skipped or finds its output in place leaves every file and directory as
it was. One that creates or replaces its destination puts the generated text there, where nothing or
another file was before, and changes nothing else. -/
theorem configure_all_or_nothing (store : Store) (request : Request) (directory : String) :
    let path := Path.join directory request.output
    match configure store request directory with
    | (.error _, after) => after = store
    | (.ok report, after) =>
      match report.outcome with
      | .skipped | .unchanged => after = store
      | .created => ∃ run target, Run.prepare store request directory = (.ok (), run) ∧
          store.pathExists path = false ∧ store.entry? target = none ∧
          store.Holds path run.output target after
      | .replaced => ∃ run target old, Run.prepare store request directory = (.ok (), run) ∧
          store.pathExists path = true ∧ store.entry? target = some (.file old) ∧
          store.Holds path run.output target after := by
  dsimp only
  split
  · rename_i cause after configures
    rcases configure_cases configures with ⟨_, -, unchanged⟩ | ⟨_, same, -⟩ | ⟨_, _, same, -⟩
    · exact unchanged
    · cases same
    · cases same
  · rename_i report after configures
    rcases configure_cases configures with ⟨_, same, -⟩ | ⟨_, same, skipped, unchanged⟩ |
      ⟨_, run, same, prepares, commits⟩
    · cases same
    · cases same
      rw [skipped]
      exact unchanged
    · cases same
      revert commits
      cases report.outcome with
      | created =>
        intro ⟨absent, writes⟩
        obtain ⟨target, nothing, holds⟩ := writes.creates absent
        exact ⟨run, target, prepares, absent, nothing, holds⟩
      | replaced =>
        intro ⟨present, writes⟩
        obtain ⟨target, old, found, holds⟩ := writes.replaces present
        exact ⟨run, target, old, prepares, present, found, holds⟩
      | unchanged => exact fun ⟨_, _, unchanged⟩ => unchanged
      | skipped => exact fun ⟨_, unchanged⟩ => unchanged

end ConfigTemplate
