import ConfigTemplate.Text.Blank

/-!
# Declarations

The declarations that a template can make: its project, its configurations, conditions that are
derived from others, rules that must hold, and properties.
-/

namespace ConfigTemplate.Document

/-- The kinds of declaration. -/
inductive Keyword where
  | project
  | config
  | define
  | require
  | property
deriving DecidableEq, Repr

namespace Keyword

/-- The name of the element that makes a declaration. -/
def element : Keyword → String
  | .project => "project"
  | .config => "config"
  | .define => "define"
  | .require => "require"
  | .property => "property"

def all : List Keyword := [.project, .config, .define, .require, .property]

/-- The kind of declaration that an element makes, if any. -/
def ofElement? (name : String) : Option Keyword := all.find? (·.element = name)

/-- Whether a declaration must have a name. -/
def requiresName : Keyword → Bool
  | .config | .define | .property => true
  | .project | .require => false

/-- Whether a declaration may hold text of its own, other than white space. -/
def hasBody : Keyword → Bool
  | .define | .require | .property => true
  | .project | .config => false

end Keyword

inductive Declaration where
  | project (name : Option String) (description : String)
  /-- A configuration, and whether it is selected unless a request says otherwise. -/
  | config (name description : String) (selected : Bool)
  | define (name : Option String) (description source : String)
  | require (name : Option String) (description source : String)
  /-- A property; `scope` is the configuration that it is declared in. -/
  | property (name description value : String) (scope : Option String) (overridable : Bool)
deriving DecidableEq, Repr

/-- One line that says what is declared. -/
def Declaration.summary : Declaration → String
  | .project name _ => "project " ++ name.getD "<anon>"
  | .config name _ selected => "config " ++ name ++ if selected then " (default)" else ""
  | .define name _ source => "define " ++ name.getD "<anon>" ++ " '" ++ Text.trim source ++ "'"
  | .require name _ source => "require " ++ name.getD "<anon>" ++ " '" ++ Text.trim source ++ "'"
  | .property name _ _ scope _ =>
    "property " ++ name ++
      match scope with
      | some owner => " in " ++ owner
      | none => ""

end ConfigTemplate.Document
