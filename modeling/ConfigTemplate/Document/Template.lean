import ConfigTemplate.Document.Assembly
import ConfigTemplate.Markup.Parsing

/-!
# Templates

A template is the text of a tree. Paths of included files are read in the directory of the file that
includes them, and those of the template itself in a given directory.
-/

namespace ConfigTemplate.Document

open Markup (ParseError Reader)

/-- The tree of a template. -/
def Tree.parse (store : Store) (text directory : String) : Except ParseError Tree :=
  match (Reader.ofText text directory).parse store Assembly.handler .empty with
  | (.error cause, _, _) => .error cause
  | (.ok (), reader, assembly) => assembly.finish reader.line

end ConfigTemplate.Document
