import ConfigTemplate.Run.Steps

/-!
# Running a request

`configure` takes a request through all steps and commits the output. The files change only in the
last step.
-/

namespace ConfigTemplate

/-- Steps of a run that may write files. -/
abbrev FileStepM := Attempt RunError (Run × Store)

namespace Run

/-- A step that leaves the files alone. -/
def onRun {α : Type} (step : StepM α) : FileStepM α := fun (run, store) =>
  let (result, after) := step run
  (result, after, store)

/-- Makes a step that leads to the output. -/
def make (step : Step) : FileStepM Unit := fun (run, store) => onRun (step.perform store) (run, store)

/-- Writes the output to its destination. -/
def commit : FileStepM Outcome := do
  onRun (expect .outputGenerated)
  let (run, store) ← get
  let (result, after) := store.commit run.outputPath run.output run.request.overwrite
  set (run, after)
  let outcome ← Attempt.ofExcept (result.mapError (.commitFailed run.outputPath))
  onRun (reach .committed)
  return outcome

/-- Takes a run through all steps that are left and writes the output. If the destination exists and
must be left alone, nothing else is done. -/
def complete : FileStepM Report := do
  let (run, store) ← get
  if run.request.overwrite = .no ∧ store.pathExists run.outputPath then
    let run := { run with warnings := run.warnings ++ [Warning.outputExists run.outputPath] }
    set (run, store)
    return run.report .skipped
  Step.all.forM make
  let outcome ← commit
  let (run, _) ← get
  return run.report outcome

end Run

/-- Carries out a request. Its paths are read in the given directory. -/
def configure (store : Store) (request : Request) (directory : String) :
    Except RunError Report × Store :=
  let (result, _, after) := Run.complete (Run.start request directory, store)
  (result, after)

end ConfigTemplate
