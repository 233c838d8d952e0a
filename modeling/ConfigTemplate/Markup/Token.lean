import ConfigTemplate.Text.Quoted

/-!
# Tokens of templates
-/

namespace ConfigTemplate.Markup

inductive Token where
  /-- Text outside of markup. -/
  | text (content : String)
  /-- The `<` of an element. -/
  | openMarkup
  /-- The `>` of an element. -/
  | closeMarkup
  | identifier (name : String)
  /-- The value of an attribute, without its quotes and escapes. -/
  | quoted (value : String)
  | equals
  | slash
deriving DecidableEq, Repr, Inhabited

/-- How an error message names a token. -/
def Token.describe : Token → String
  | .text content => "Text(" ++ Text.quote content ++ ")"
  | .openMarkup => "OpenMarkup"
  | .closeMarkup => "CloseMarkup"
  | .identifier name => "Identifier(" ++ Text.quote name ++ ")"
  | .quoted value => "QuotedString(" ++ Text.quote value ++ ")"
  | .equals => "Equals"
  | .slash => "Slash"

end ConfigTemplate.Markup
