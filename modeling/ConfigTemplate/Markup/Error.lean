import ConfigTemplate.Files.Store
import ConfigTemplate.Markup.Token

/-!
# Errors in templates

Lines count from one and go on counting through included files.
-/

namespace ConfigTemplate.Markup

/-- What is wrong in a template. Names of elements and attributes are given as they are written. -/
inductive Fault where
  /-- An element was to begin here, but another character follows. -/
  | notAtElement (character : Char)
  /-- The character cannot stand between `<` and `>`. -/
  | strangeInElement (character : Char)
  /-- The file to include is being read already. -/
  | recursiveInclude (path : String)
  | tokenOutsideElement (token : Token)
  /-- An element has no name, or is self-closing but does not end behind its slash. -/
  | invalidElement
  /-- What follows the attributes of an element does not end it. -/
  | invalidElementEnd (element : String)
  /-- The name of an attribute is not followed by an equals sign. -/
  | missingEquals (name : String)
  | missingValue (name : String)
  | invalidCloseElement
  | missingNameAttribute (element : String)
  /-- The value of an attribute is neither `yes` nor `no`. -/
  | notYesOrNo (name value : String)
  | contentInside (element : String)
  | elementInside (inner outer : String)
  /-- A declaration is closed by another name. -/
  | mismatchedInside (closed element : String)
  | nestedInclude
  | includeWithoutPath
  | mismatchedBlock (closed block : String)
  | unexpectedClose (closed : String)
  /-- A fault that only the receiver of the events knows. -/
  | custom (text : String)
deriving DecidableEq, Repr

/-- What the input ended in. -/
inductive Unfinished where
  | element
  | comment
  | quoted
  | declaration (name : String)
  | block (name : String)
deriving DecidableEq, Repr

inductive ParseError where
  | malformed (line : Nat) (fault : Fault)
  | unfinished (line : Nat) (what : Unfinished)
  /-- The file to include cannot be read. -/
  | unreadable (line : Nat) (path : String) (cause : FileError)
deriving DecidableEq, Repr

def Fault.message : Fault → String
  | .notAtElement c => "unexpected character '" ++ c.toString ++ "' at start of markup"
  | .strangeInElement c => "unexpected character '" ++ c.toString ++ "' inside markup"
  | .recursiveInclude path => "recursive include of '" ++ path ++ "'"
  | .tokenOutsideElement token => "unexpected token " ++ token.describe ++ " outside markup"
  | .invalidElement => "invalid element"
  | .invalidElementEnd element => "invalid element <" ++ element ++ ">"
  | .missingEquals name => "expected '=' after attribute '" ++ name ++ "'"
  | .missingValue name => "attribute '" ++ name ++ "' is missing a quoted value"
  | .invalidCloseElement => "invalid close element"
  | .missingNameAttribute element => "<" ++ element ++ "> is missing the 'name' attribute"
  | .notYesOrNo name value =>
    "invalid value '" ++ value ++ "' for '" ++ name ++ "' attribute, expected 'yes' or 'no'"
  | .contentInside element => "unexpected content inside <" ++ element ++ ">"
  | .elementInside inner outer => "unexpected element <" ++ inner ++ "> inside <" ++ outer ++ ">"
  | .mismatchedInside closed element =>
    "mismatched close element </" ++ closed ++ "> inside <" ++ element ++ ">"
  | .nestedInclude => "nested <include> element"
  | .includeWithoutPath => "<include> is missing the 'path' attribute"
  | .mismatchedBlock closed block =>
    "mismatched close element </" ++ closed ++ ">, expected </" ++ block ++ ">"
  | .unexpectedClose closed => "unexpected close element </" ++ closed ++ ">"
  | .custom text => text

def Unfinished.message : Unfinished → String
  | .element => "inside markup element"
  | .comment => "inside comment"
  | .quoted => "inside quoted string"
  | .declaration name => "unclosed <" ++ name ++ "> element"
  | .block name => "unclosed conditional block <" ++ name ++ ">"

/-- The line on which an error was found. -/
def ParseError.line : ParseError → Nat
  | .malformed line _ | .unfinished line _ | .unreadable line _ _ => line

def ParseError.message : ParseError → String
  | .malformed line fault => "syntax error at line " ++ toString line ++ ": " ++ fault.message
  | .unfinished line what =>
    "unexpected end of file at line " ++ toString line ++ ": " ++ what.message
  | .unreadable line path cause =>
    "cannot include '" ++ path ++ "' at line " ++ toString line ++ ": " ++ cause.message

end ConfigTemplate.Markup
