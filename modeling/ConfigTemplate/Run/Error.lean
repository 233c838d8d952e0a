import ConfigTemplate.Catalog
import ConfigTemplate.Files.Store
import ConfigTemplate.Formula.Evaluation
import ConfigTemplate.Markup.Error
import ConfigTemplate.Property.Marker
import ConfigTemplate.Suggestion

/-!
# Stages and errors of a run
-/

namespace ConfigTemplate

/-- How far a run has come. -/
inductive Stage where
  | unparsed
  | parsed
  | objectsExtracted
  | conditionsSeeded
  | treeFiltered
  | treeValidated
  | conditionsEvaluated
  | propertiesBuilt
  | rulesChecked
  | outputGenerated
  | committed
deriving DecidableEq, Repr, Inhabited

def Stage.name : Stage → String
  | .unparsed => "Unparsed"
  | .parsed => "Parsed"
  | .objectsExtracted => "ObjectsExtracted"
  | .conditionsSeeded => "ConditionsSeeded"
  | .treeFiltered => "TreeFiltered"
  | .treeValidated => "TreeValidated"
  | .conditionsEvaluated => "ConditionsEvaluated"
  | .propertiesBuilt => "PropertiesBuilt"
  | .rulesChecked => "RulesChecked"
  | .outputGenerated => "OutputGenerated"
  | .committed => "Committed"

/-- Why a run fails. -/
inductive RunError where
  /-- The template cannot be read. -/
  | unreadableTemplate (path : String) (cause : FileError)
  /-- The template, or a file that it includes, is malformed. -/
  | malformedTemplate (path : String) (cause : Markup.ParseError)
  /-- The text of a condition or a rule is no formula. -/
  | malformedFormula (name : String) (line : Nat) (cause : Formula.ParseError)
  /-- A condition has no value. -/
  | evaluationFailed (name : String) (cause : EvalError)
  /-- The markers of a text cannot be replaced. -/
  | unsettledText (line : Nat) (cause : Property.Unsettled)
  /-- The request names a configuration that is not declared. -/
  | unknownConfiguration (name : String) (suggestions : List String)
  | duplicateConfiguration (cause : DuplicateConfiguration)
  /-- A condition or a rule has the name of another one. -/
  | duplicateCondition (name : String) (line : Nat)
  /-- A block has the name of no condition. -/
  | undefinedCondition (name : String) (line : Nat) (suggestions : List String)
  /-- A rule is not true. -/
  | requirementFailed (name description : String)
  /-- The destination cannot be written. -/
  | commitFailed (path : String) (cause : FileError)
  /-- A step is called at the wrong stage. -/
  | outOfOrder (expected found : Stage)
deriving DecidableEq, Repr

def RunError.message : RunError → String
  | .unreadableTemplate path cause =>
    "failed to read template '" ++ path ++ "': " ++ cause.message
  | .malformedTemplate path cause => path ++ ": " ++ cause.message
  | .malformedFormula name line cause =>
    "line " ++ toString line ++ ": invalid expression for '" ++ name ++ "': " ++ cause.message
  | .evaluationFailed name cause => "cannot evaluate condition '" ++ name ++ "': " ++ cause.message
  | .unsettledText line cause => "line " ++ toString line ++ ": " ++ cause.message
  | .unknownConfiguration name suggestions =>
    "unknown configuration '" ++ name ++ "'" ++ didYouMean suggestions
  | .duplicateConfiguration ⟨name, line, firstLine⟩ =>
    "line " ++ toString line ++ ": configuration '" ++ name ++ "' already declared at line " ++
      toString firstLine
  | .duplicateCondition name line =>
    "line " ++ toString line ++ ": condition '" ++ name ++ "' is already defined"
  | .undefinedCondition name line suggestions =>
    "line " ++ toString line ++ ": conditional block for undefined condition '" ++ name ++ "'" ++
      didYouMean suggestions
  | .requirementFailed name description =>
    "requirement rule '" ++ name ++ "' failed: " ++ description
  | .commitFailed path cause => "failed to write '" ++ path ++ "': " ++ cause.message
  | .outOfOrder expected found =>
    "pipeline step requires stage " ++ expected.name ++ ", but the run is at " ++ found.name

end ConfigTemplate
