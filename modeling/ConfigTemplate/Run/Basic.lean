import ConfigTemplate.Condition.Table
import ConfigTemplate.Run.Commit
import ConfigTemplate.Run.Error

/-!
# Runs

A run takes one request from its template to its output. It goes through the stages in order; each
step may be called at one stage only and leads to the next one.
-/

namespace ConfigTemplate

/-- What a run reports besides its outcome. -/
inductive Warning where
  /-- The request gives a value for a property that must keep its own. -/
  | propertyNotOverridable (name : String)
  /-- The destination exists and is left alone. -/
  | outputExists (path : String)
deriving DecidableEq, Repr

def Warning.message : Warning → String
  | .propertyNotOverridable name => "cannot override property '" ++ name ++ "'"
  | .outputExists path =>
    "skipped configuring '" ++ path ++ "' because the overwrite option is off"

/-- The result of a run. -/
structure Report where
  output : String
  outcome : Outcome
  warnings : List Warning
deriving DecidableEq, Repr

structure Run where
  request : Request
  templatePath : String
  outputPath : String
  stage : Stage
  tree : Document.Tree
  catalog : Catalog
  conditions : Condition.Table
  scope : Property.Scope
  output : String
  warnings : List Warning
deriving DecidableEq, Repr

/-- Steps of a run that write no files. -/
abbrev StepM := Attempt RunError Run

namespace Run

/-- A run at its start. The paths of the request are read in the given directory. -/
def start (request : Request) (directory : String) : Run where
  request
  templatePath := Path.join directory request.template
  outputPath := Path.join directory request.output
  stage := .unparsed
  tree := .empty
  catalog := .empty
  conditions := .empty
  scope := .empty
  output := ""
  warnings := []

def report (run : Run) (outcome : Outcome) : Report := ⟨run.outputPath, outcome, run.warnings⟩

/-- Fails unless the run is at the given stage. -/
def expect (expected : Stage) : StepM Unit := do
  let run ← get
  if run.stage ≠ expected then throw (.outOfOrder expected run.stage)

/-- Takes the run to a stage. -/
def reach (stage : Stage) : StepM Unit := modify fun run => { run with stage }

end Run

end ConfigTemplate
