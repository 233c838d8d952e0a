import ConfigTemplate.Formula.Basic

/-!
# Tokens of formulas

A formula is written with connectives, `!`, parentheses and words. A word is `true`, `false` or the
name of a condition. Each token is kept with its column, which counts characters from one.
-/

namespace ConfigTemplate.Formula

inductive Token where
  | connective (operation : Connective)
  | negation
  | openParen
  | closeParen
  | constant (value : Bool)
  | name (text : String)
deriving DecidableEq, Repr, Inhabited

/-- A token and the column of its first character. -/
structure Lexeme where
  token : Token
  column : Nat
deriving DecidableEq, Repr, Inhabited

namespace Token

/-- The characters of which a token is made in a source. -/
def spelling : Token → String
  | .connective operation => operation.symbol
  | .negation => "!"
  | .openParen => "("
  | .closeParen => ")"
  | .constant value => if value then "true" else "false"
  | .name text => text

/-- How an error message names a token. -/
def describe : Token → String
  | .constant value => "constant '" ++ (Token.constant value).spelling ++ "'"
  | .name text => "identifier '" ++ text ++ "'"
  | token => "'" ++ token.spelling ++ "'"

/-- The token that a whole word stands for. -/
def ofWord (word : String) : Token :=
  if word = "true" then .constant true
  else if word = "false" then .constant false
  else .name word

end Token

end ConfigTemplate.Formula
