/-!
# Words and line breaks

The characters of which the names in templates and formulas are made. All classes hold ASCII
characters only; no other letter can be part of a name.
-/

namespace ConfigTemplate.Text

/-- A name starts with an ASCII letter or an underscore. -/
def isWordStart (c : Char) : Bool := c.isAlpha || c == '_'

/-- A name goes on with ASCII letters, digits, underscores and hyphens. -/
def isWordPart (c : Char) : Bool := c.isAlphanum || c == '_' || c == '-'

/-- A line ends with a line feed, a carriage return, or the two in this order. -/
def isLineBreak (c : Char) : Bool := c == '\n' || c == '\r'

/-- The blanks within a line. -/
def isSpaceOrTab (c : Char) : Bool := c == ' ' || c == '\t'

end ConfigTemplate.Text
