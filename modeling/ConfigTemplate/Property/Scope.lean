import ConfigTemplate.NameMap

/-!
# Property scopes

A scope gives text values to property names. It may lie inside other scopes, which are asked in turn
for a name that it does not define. A name that no scope defines has the empty value.
-/

namespace ConfigTemplate.Property

structure Scope where
  values : NameMap String
  /-- The scopes around this one, the innermost first. -/
  outer : List (NameMap String)
deriving DecidableEq, Repr

namespace Scope

def empty : Scope := ⟨.empty, []⟩

/-- An empty scope inside the given one. -/
def nested (scope : Scope) : Scope := ⟨.empty, scope.values :: scope.outer⟩

def set (scope : Scope) (name value : String) : Scope :=
  { scope with values := scope.values.insert name value }

def remove (scope : Scope) (name : String) : Scope :=
  { scope with values := scope.values.erase name }

/-- Whether the scope itself defines a name. -/
def contains (scope : Scope) (name : String) : Bool := scope.values.contains name

/-- The value of a name in the innermost scope that defines it. -/
def get (scope : Scope) (name : String) : String :=
  ((scope.values :: scope.outer).findSome? (·.get? name)).getD ""

end Scope

end ConfigTemplate.Property
