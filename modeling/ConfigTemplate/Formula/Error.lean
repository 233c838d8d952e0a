import ConfigTemplate.Formula.Token

/-!
# Errors in the text of a formula
-/

namespace ConfigTemplate.Formula

/-- What is wrong at a place of the text. -/
inductive Fault where
  /-- No token starts with the character. -/
  | unknownCharacter (character : Char)
  /-- The text ends where an operand should stand. -/
  | unexpectedEnd
  /-- The token stands where an operand should stand. -/
  | unexpectedToken (token : Token)
  /-- The token follows a complete formula. -/
  | trailingToken (token : Token)
  /-- An open parenthesis is not closed here. -/
  | missingCloseParen
  /-- The formula is nested more deeply than is allowed. -/
  | nestedTooDeeply
deriving DecidableEq, Repr

/-- Why a text is not a formula. Columns count characters from one. -/
inductive ParseError where
  /-- The text holds no tokens. -/
  | empty
  | malformed (column : Nat) (fault : Fault)
deriving DecidableEq, Repr

def Fault.message : Fault → String
  | .unknownCharacter character => "unexpected character '" ++ character.toString ++ "'"
  | .unexpectedEnd => "unexpected end of expression"
  | .unexpectedToken token => "unexpected " ++ token.describe
  | .trailingToken token => "unexpected " ++ token.describe ++ " after expression"
  | .missingCloseParen => "expected ')'"
  | .nestedTooDeeply => "expression nested too deeply"

def ParseError.message : ParseError → String
  | .empty => "empty expression"
  | .malformed column fault =>
    "expression syntax error at column " ++ toString column ++ ": " ++ fault.message

end ConfigTemplate.Formula
