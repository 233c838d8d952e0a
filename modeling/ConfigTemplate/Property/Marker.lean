import ConfigTemplate.Property.Scope
import ConfigTemplate.Text.Word

/-!
# Property markers

A marker is a property name between two `##`, with blanks allowed around the name. Substitution puts
the value of the property in its place, over and over until a pass replaces nothing, so values may
hold markers themselves. A pair of `##` with anything else between them is dropped, and a `##` that
has no partner is ordinary text.
-/

namespace ConfigTemplate.Property

/-- The number of passes that may replace a marker. -/
def maxPasses : Nat := 64

/-- Substitution did not come to an end. -/
structure Unsettled where
  /-- The number of passes that replaced a marker. -/
  limit : Nat
  /-- The last property that one more pass would replace. -/
  name : String
deriving DecidableEq, Repr

def Unsettled.message (cause : Unsettled) : String :=
  "property substitution did not settle after " ++ toString cause.limit ++
    " passes (last property substituted: '" ++ cause.name ++ "')"

/-- Property names hold ASCII letters, digits and underscores. -/
def isNameCharacter (c : Char) : Bool := c.isAlphanum || c == '_'

/-- The name that stands between two `##`, unless something else stands there. -/
def markerName? (content : List Char) : Option String :=
  let start := content.dropWhile Text.isSpaceOrTab
  if (start.dropWhile isNameCharacter).all Text.isSpaceOrTab then
    some (String.ofList (start.takeWhile isNameCharacter))
  else none

/-- What a pass makes of a text. -/
structure Pass where
  output : List Char
  /-- The name of the last marker that was replaced. -/
  last : Option String
deriving DecidableEq, Repr

namespace Pass

/-- Puts literal text before the result of a pass. -/
def literal (text : List Char) (pass : Pass) : Pass := { pass with output := text ++ pass.output }

/-- Puts the value of a marker before the result of a pass over the text behind the marker. -/
def replaced (name : String) (value : List Char) (pass : Pass) : Pass :=
  ⟨value ++ pass.output, pass.last <|> some name⟩

end Pass

/-- One pass from left to right. The first argument is the content of the marker that is open, in
reverse. -/
def passFrom (value : String → String) : Option (List Char) → List Char → Pass
  | none, [] => ⟨[], none⟩
  | some content, [] => ⟨'#' :: '#' :: content.reverse, none⟩
  | none, '#' :: '#' :: rest => passFrom value (some []) rest
  | none, c :: rest => (passFrom value none rest).literal [c]
  | some content, '#' :: '#' :: rest =>
    match markerName? content.reverse with
    | some name => (passFrom value none rest).replaced name (value name).toList
    | none => passFrom value none rest
  | some content, c :: rest => passFrom value (some (c :: content)) rest

namespace Scope

/-- Replaces the markers of a text once. -/
def pass (scope : Scope) (text : List Char) : Pass := passFrom scope.get none text

/-- Replaces the markers of a text until none is left; at most `passes` passes may replace one. -/
def settle (scope : Scope) : Nat → List Char → Except Unsettled (List Char)
  | passes, text =>
    let result := scope.pass text
    match result.last with
    | none => .ok result.output
    | some name =>
      match passes with
      | 0 => .error ⟨maxPasses, name⟩
      | passes + 1 => scope.settle passes result.output

/-- Replaces every property marker in a text. -/
def substitute (scope : Scope) (text : String) : Except Unsettled String :=
  (scope.settle maxPasses text.toList).map String.ofList

end Scope

end ConfigTemplate.Property
