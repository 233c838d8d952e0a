/-!
# Formulas over named conditions

A formula combines named conditions and the two truth values with negation and three connectives.
`Formula.render` writes every connective with its own pair of parentheses, so the text shows how a
formula is grouped.
-/

namespace ConfigTemplate

/-- The connectives that join two formulas. -/
inductive Connective where
  | and
  | or
  | xor
deriving DecidableEq, Repr, Inhabited

namespace Connective

def apply : Connective → Bool → Bool → Bool
  | .and, left, right => left && right
  | .or, left, right => left || right
  | .xor, left, right => left != right

def symbol : Connective → String
  | .and => "&&"
  | .or => "||"
  | .xor => "^^"

end Connective

/-- A boolean formula over named conditions. -/
inductive Formula where
  | constant (value : Bool)
  | condition (name : String)
  | negation (operand : Formula)
  | binary (connective : Connective) (left right : Formula)
deriving DecidableEq, Repr, Inhabited

namespace Formula

/-- The names in a formula from left to right, each as often as it occurs. -/
def conditions : Formula → List String
  | .constant _ => []
  | .condition name => [name]
  | .negation operand => operand.conditions
  | .binary _ left right => left.conditions ++ right.conditions

/-- The text of a formula, with every connective in parentheses. -/
def render : Formula → String
  | .constant value => if value then "true" else "false"
  | .condition name => name
  | .negation operand => "!" ++ operand.render
  | .binary connective left right =>
    "(" ++ left.render ++ " " ++ connective.symbol ++ " " ++ right.render ++ ")"

end Formula

end ConfigTemplate
