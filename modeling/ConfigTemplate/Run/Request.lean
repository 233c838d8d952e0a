import ConfigTemplate.Files.Path
import ConfigTemplate.NameMap

/-!
# Requests
-/

namespace ConfigTemplate

/-- What to do with a destination that exists. -/
inductive Overwrite where
  /-- Replace it. -/
  | yes
  /-- Leave it as it is. -/
  | no
  /-- Replace it if the new content differs. -/
  | update
deriving DecidableEq, Repr, Inhabited

namespace Overwrite

def name : Overwrite → String
  | .yes => "yes"
  | .no => "no"
  | .update => "update"

/-- The policy with exactly the given name. -/
def ofName? (name : String) : Option Overwrite :=
  [Overwrite.yes, .no, .update].find? (·.name = name)

/-- The policy that a text names, without regard to the case of ASCII letters. -/
def ofText? (text : String) : Option Overwrite := ofName? (text.map Char.toLower)

/-- Why a text names no policy. -/
def invalidMessage (text : String) : String :=
  "invalid overwrite policy '" ++ text ++ "', expected 'yes', 'no' or 'update'"

end Overwrite

/-- What is asked for: a template, the destination of its output, the configurations to select and
to deselect, the values of properties, and what to do with a destination that exists. -/
structure Request where
  template : String
  output : String
  selected : List String
  /-- These count after the selected ones. -/
  deselected : List String
  properties : NameMap String
  overwrite : Overwrite
deriving DecidableEq, Repr

end ConfigTemplate
