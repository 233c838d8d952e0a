import ConfigTemplate.Document.Template
import ConfigTemplate.Run.Basic

/-!
# The steps of a run

Each step expects the run at one stage, does its work and takes the run to the next stage. Only
`parse` may be called at any stage, and does nothing after the first. A step that fails leaves the
stage as it is and keeps what it has changed until then.
-/

namespace ConfigTemplate

open Document (Content Node NodeId Tree)

namespace Run

/-! ## The template -/

/-- Reads the tree of the template, if that has not been done. -/
def parse (store : Store) : StepM Unit := do
  let run ← get
  if run.stage = .unparsed then
    let path := run.templatePath
    let text ← Attempt.ofExcept ((store.readText path).mapError (.unreadableTemplate path))
    let directory := (Path.parent? path).getD ""
    let tree ← Attempt.ofExcept
      ((Tree.parse store text directory).mapError (.malformedTemplate path))
    set { run with tree, stage := .parsed }

/-- Collects the declarations of the tree. -/
def extractDefinitions : StepM Unit := do
  expect .parsed
  let run ← get
  let catalog ← Attempt.ofExcept ((Catalog.extract run.tree).mapError .duplicateConfiguration)
  set { run with catalog, stage := .objectsExtracted }

/-! ## Conditions -/

/-- The value that a request gives to a configuration, added to those given before. -/
def addRequested (catalog : Catalog) (found : NameMap Bool) (wish : String × Bool) :
    Except RunError (NameMap Bool) :=
  match catalog.configuration? wish.1 with
  | some configuration => .ok (found.insert configuration.name wish.2)
  | none =>
    let available := catalog.configurations.values.map Configuration.name
    .error (.unknownConfiguration wish.1 (suggestions wish.1 available))

/-- The values that a request gives to configurations, by their declared names. -/
def requestedValues (catalog : Catalog) (request : Request) : Except RunError (NameMap Bool) :=
  (request.selected.map (·, true) ++ request.deselected.map (·, false)).foldlM
    (addRequested catalog) .empty

/-- Adds a configuration with the value that was asked for, or else its own. -/
def seedConfiguration (requested : NameMap Bool) (table : Condition.Table)
    (configuration : Configuration) : Condition.Table :=
  table.insertConstant configuration.name
    ((requested.get? configuration.name).getD configuration.selected)

/-- Adds a condition with its formula. -/
def seedFormula (named : NamedFormula) : StepM Unit := do
  let run ← get
  if run.conditions.contains named.name then throw (.duplicateCondition named.name named.line)
  let formula ← Attempt.ofExcept
    (named.formula.mapError (.malformedFormula named.name named.line))
  set { run with conditions := run.conditions.insert named.name (.pending formula) }

/-- Fills the condition table with the configurations, the derived conditions and the rules. -/
def seedConditions : StepM Unit := do
  expect .objectsExtracted
  let run ← get
  let catalog := run.catalog
  let requested ← Attempt.ofExcept (requestedValues catalog run.request)
  set { run with
    conditions :=
      catalog.configurations.values.foldl (seedConfiguration requested) run.conditions }
  (catalog.defines ++ catalog.rules).forM seedFormula
  reach .conditionsSeeded

/-- Replaces the formulas in the condition table by their values. -/
def evaluateConditions : StepM Unit := do
  expect .treeValidated
  let run ← get
  let conditions ← Attempt.ofExcept
    (run.conditions.evaluateAll.mapError fun failure => .evaluationFailed failure.name failure.cause)
  set { run with conditions, stage := .conditionsEvaluated }

/-! ## The tree -/

/-- Whether the content of a node has a property; a missing node has none. -/
def nodeIs (tree : Tree) (property : Content → Bool) (id : Option NodeId) : Bool :=
  (id >>= tree.node?).any fun node => property node.content

/-- Removes a node of blank text that stands between two declarations. -/
def removeConnector (tree : Tree) (id : NodeId) : Tree :=
  if nodeIs tree Content.isBlankText (some id)
      && nodeIs tree Content.isDeclaration (tree.prev? id)
      && nodeIs tree Content.isDeclaration (tree.next? id)
  then tree.remove id else tree

/-- Removes a declaration. -/
def removeDeclaration (tree : Tree) (id : NodeId) : Tree :=
  if nodeIs tree Content.isDeclaration (some id) then tree.remove id else tree

/-- The tree without the declarations of its top-level list and the blank text between them. -/
def withoutDeclarations (tree : Tree) : Tree :=
  let topLevel := tree.children none
  topLevel.foldl removeDeclaration (topLevel.foldl removeConnector tree)

/-- Removes the declarations of the top-level list and the blank text between them. -/
def filterTree : StepM Unit := do
  expect .conditionsSeeded
  modify fun run => { run with tree := withoutDeclarations run.tree, stage := .treeFiltered }

/-- Refuses a block whose condition is not in the table. -/
def checkBlock (conditions : Condition.Table) (node : Node) : Except RunError Bool :=
  match node.content with
  | .block name =>
    if conditions.contains name then .ok true
    else .error (.undefinedCondition name node.line (suggestions name conditions.names))
  | .text _ | .declaration _ => .ok true

/-- Checks that there is a condition for every block. -/
def validateTree : StepM Unit := do
  expect .treeFiltered
  let run ← get
  Attempt.ofExcept (run.tree.visit fun _ node => checkBlock run.conditions node)
  reach .treeValidated

/-! ## Properties and rules -/

/-- The declared properties that count: those for all outputs, and then those of configurations that
are true. -/
def activeProperties (catalog : Catalog) (conditions : Condition.Table) : List DeclaredProperty :=
  catalog.properties.filter (·.scope.isNone) ++
    catalog.properties.filter fun property =>
      property.scope.any fun name =>
        (catalog.configuration? name).isSome && conditions.isTrue name

/-- The names of properties that no request can change. -/
def lockedNames (properties : List DeclaredProperty) : List String :=
  (properties.filter (!·.overridable)).map DeclaredProperty.name

/-- Gives a property the value that the request asks for, unless it is locked. -/
def override (locked : List String) (run : Run) (wish : String × String) : Run :=
  let name := match run.catalog.property? wish.1 with
    | some property => property.name
    | none => wish.1
  if run.scope.contains name && locked.contains name then
    { run with warnings := run.warnings ++ [.propertyNotOverridable name] }
  else { run with scope := run.scope.set name wish.2 }

/-- Gives the properties their values: those declared for all outputs, those of configurations that
are true, and those that the request asks for. -/
def buildProperties : StepM Unit := do
  expect .conditionsEvaluated
  modify fun run =>
    let active := activeProperties run.catalog run.conditions
    let scope := active.foldl (fun scope property => scope.set property.name property.value) run.scope
    let run := { run with scope, stage := .propertiesBuilt }
    run.request.properties.toList.foldl (override (lockedNames active)) run

/-- Fails at the first rule that is not true. -/
def checkRules : StepM Unit := do
  expect .propertiesBuilt
  let run ← get
  match run.catalog.rules.find? fun rule => !run.conditions.isTrue rule.name with
  | some rule => throw (.requirementFailed rule.name rule.description)
  | none => reach .rulesChecked

/-! ## The output -/

/-- Adds the text of a node to the output, and says whether the nodes below it count. -/
def emit (node : Node) : StepM Bool := do
  let run ← get
  match node.content with
  | .text characters =>
    let text ← Attempt.ofExcept
      ((run.scope.substitute characters).mapError (.unsettledText node.line))
    set { run with output := run.output ++ text }
    return true
  | .block condition => return run.conditions.isTrue condition
  | .declaration _ => return false

/-- Makes the output from the texts of the tree, without the blocks whose condition is false. -/
def generateOutput : StepM Unit := do
  expect .rulesChecked
  modify fun run => { run with output := "" }
  let run ← get
  run.tree.visit fun _ node => emit node
  reach .outputGenerated

/-! ## The steps in order -/

/-- The steps that lead to the output. -/
inductive Step where
  | parse
  | extractDefinitions
  | seedConditions
  | filterTree
  | validateTree
  | evaluateConditions
  | buildProperties
  | checkRules
  | generateOutput
deriving DecidableEq, Repr

namespace Step

/-- The steps in the order in which they are to be made. -/
def all : List Step :=
  [.parse, .extractDefinitions, .seedConditions, .filterTree, .validateTree, .evaluateConditions,
    .buildProperties, .checkRules, .generateOutput]

/-- Makes a step. Only `parse` reads files. -/
def perform (store : Store) : Step → StepM Unit
  | .parse => Run.parse store
  | .extractDefinitions => Run.extractDefinitions
  | .seedConditions => Run.seedConditions
  | .filterTree => Run.filterTree
  | .validateTree => Run.validateTree
  | .evaluateConditions => Run.evaluateConditions
  | .buildProperties => Run.buildProperties
  | .checkRules => Run.checkRules
  | .generateOutput => Run.generateOutput

end Step

end Run

end ConfigTemplate
