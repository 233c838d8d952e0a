/-!
# Paths

A path is a text in which slashes separate segments. Joining and taking the parent work on the text
alone: nothing is looked up, and `..` is a segment like any other.
-/

namespace ConfigTemplate.Path

/-- The texts between the slashes of a path; some may be empty. -/
def segments (path : String) : List String := (path.toList.splitOn '/').map String.ofList

/-- The path of the given segments. -/
def ofSegments (segments : List String) : String := String.intercalate "/" segments

def isAbsolute (path : String) : Bool := path.toList.head? == some '/'

/-- The path that `path` names when it is read in the directory `directory`. -/
def join (directory path : String) : String :=
  if isAbsolute path || directory = "" then path
  else if directory.toList.getLast? = some '/' then directory ++ path
  else directory ++ "/" ++ path

/-- Segments that stay in the same directory. -/
def isTrivial (segment : String) : Bool := segment == "" || segment == "."

/-- Segments without the trivial ones at their end. -/
def dropTrivial (segments : List String) : List String :=
  (segments.reverse.dropWhile isTrivial).reverse

/-- The start of a path that is no name: the root or a leading dot, with the segments after it. -/
def splitLead (path : String) : String × List String :=
  match segments path with
  -- The empty text before the first slash of an absolute path.
  | "" :: second :: rest => ("/", second :: rest)
  -- A dot names a place of its own only at the start.
  | ["."] => (".", [])
  | "." :: second :: rest => (".", "" :: second :: rest)
  | rest => ("", rest)

/-- The path without its last name, if it has any parent. Slashes and dots at the end are no
names. -/
def parent? (path : String) : Option String :=
  let (lead, rest) := splitLead path
  match (dropTrivial rest).reverse with
  | [] => if lead = "." then some "" else none
  | _ :: before => some (lead ++ ofSegments (dropTrivial before.reverse))

end ConfigTemplate.Path
