import ConfigTemplate.Attempt
import ConfigTemplate.Document.Tree
import ConfigTemplate.Formula.Grammar
import ConfigTemplate.NameMap
import ConfigTemplate.Text.LowerCase

/-!
# Catalogs

A catalog holds what the declarations of a tree declare. Configurations are found by name without
regard to case, in the full Unicode sense; properties are found without regard to the case of ASCII
letters. The names of conditions are exact.
-/

namespace ConfigTemplate

open Document (Declaration Node Tree)

structure Project where
  name : Option String
  description : String
deriving DecidableEq, Repr

/-- A condition that a request can select. -/
structure Configuration where
  name : String
  description : String
  /-- Whether it is selected unless a request says otherwise. -/
  selected : Bool
  line : Nat
deriving DecidableEq, Repr

/-- The name that tells a configuration from others. -/
def Configuration.key (configuration : Configuration) : String :=
  Text.lowerCase configuration.name

/-- A condition with the text of its formula: one that is derived from others, or a rule. -/
structure NamedFormula where
  name : String
  description : String
  source : String
  line : Nat
deriving DecidableEq, Repr

/-- A property that is declared for all outputs, or for those with the configuration `scope`. -/
structure DeclaredProperty where
  name : String
  description : String
  value : String
  scope : Option String
  overridable : Bool
  line : Nat
deriving DecidableEq, Repr

/-- A configuration whose name, but for case, has been declared before. -/
structure DuplicateConfiguration where
  name : String
  line : Nat
  firstLine : Nat
deriving DecidableEq, Repr

def NamedFormula.formula (named : NamedFormula) : Except Formula.ParseError Formula :=
  Formula.parse named.source

structure Catalog where
  project : Option Project
  /-- The configurations by their names in lower case. -/
  configurations : NameMap Configuration
  defines : List NamedFormula
  rules : List NamedFormula
  properties : List DeclaredProperty
deriving DecidableEq, Repr

namespace Catalog

def empty : Catalog := ⟨none, .empty, [], [], []⟩

/-! ## Collecting declarations -/

/-- The name of the rule without a name that has the given number among such rules. -/
def anonymousRule (number : Nat) : String := "$rule" ++ toString number

/-- Adds a configuration, unless its name is taken. -/
def addConfiguration (found : NameMap Configuration) (configuration : Configuration) :
    Except DuplicateConfiguration (NameMap Configuration) :=
  match found.get? configuration.key with
  | some first => .error ⟨configuration.name, configuration.line, first.line⟩
  | none => .ok (found.insert configuration.key configuration)

/-- What has been collected of a tree: a catalog, and how many of its rules had no name. -/
structure Collected where
  catalog : Catalog
  anonymous : Nat
deriving DecidableEq, Repr

/-- Adds what a declaration on the given line declares. The last project counts. -/
def Collected.add (collected : Collected) :
    Declaration × Nat → Except DuplicateConfiguration Collected
  | (.project name description, _) =>
    .ok { collected with catalog.project := some ⟨name, description⟩ }
  | (.config name description selected, line) => do
    let configurations ←
      addConfiguration collected.catalog.configurations ⟨name, description, selected, line⟩
    return { collected with catalog.configurations := configurations }
  | (.define name description source, line) =>
    .ok { collected with
      catalog.defines :=
        collected.catalog.defines ++ [⟨name.getD "", description, source, line⟩] }
  | (.require (some name) description source, line) =>
    .ok { collected with
      catalog.rules := collected.catalog.rules ++ [⟨name, description, source, line⟩] }
  | (.require none description source, line) =>
    let number := collected.anonymous + 1
    .ok { collected with
      anonymous := number
      catalog.rules :=
        collected.catalog.rules ++ [⟨anonymousRule number, description, source, line⟩] }
  | (.property name description value scope overridable, line) =>
    .ok { collected with
      catalog.properties :=
        collected.catalog.properties ++ [⟨name, description, value, scope, overridable, line⟩] }

def collect (declared : Declaration × Nat) : Attempt DuplicateConfiguration Collected Unit := do
  let collected ← get
  set (← Attempt.ofExcept (collected.add declared))

/-- Adds the declaration in a node, if any, and goes on below the node. -/
def collectNode (node : Node) : Attempt DuplicateConfiguration Collected Bool := do
  match node.content with
  | .declaration declared => collect (declared, node.line)
  | .text _ | .block _ => pure ()
  return true

/-- The catalog of all declarations in a tree, also of those inside blocks. A visit adds them as it
comes by, and ends early at a configuration with a name that is taken. -/
def extract (tree : Tree) : Except DuplicateConfiguration Catalog :=
  match tree.visit (fun _ node => collectNode node) ⟨.empty, 0⟩ with
  | (.ok (), collected) => .ok collected.catalog
  | (.error cause, _) => .error cause

/-! ## Looking up -/

/-- The configuration with a name, without regard to case. -/
def configuration? (catalog : Catalog) (name : String) : Option Configuration :=
  catalog.configurations.get? (Text.lowerCase name)

/-- The last property with a name, without regard to the case of ASCII letters. -/
def property? (catalog : Catalog) (name : String) : Option DeclaredProperty :=
  catalog.properties.reverse.find? fun property =>
    property.name.map Char.toLower = name.map Char.toLower

end Catalog

end ConfigTemplate
