import ConfigTemplate.Text.EditDistance

/-!
# Suggestions for misspelt names
-/

namespace ConfigTemplate

/-- The names at a given edit distance from a name. -/
def namesAtDistance (name : String) (distance : Nat) (available : List String) : List String :=
  available.filter fun candidate => Text.editDistance name.toList candidate.toList = distance

/-- The names that a misspelt one may stand for: those at a distance of one, and of two when the name
has more than three bytes. The nearest come first, and names at the same distance keep their order;
there are at most three. -/
def suggestions (name : String) (available : List String) : List String :=
  let reach := if name.utf8ByteSize ≤ 3 then 1 else 2
  ((List.range reach).flatMap fun n => namesAtDistance name (n + 1) available).take 3

/-- The end of a message that offers suggestions. -/
def didYouMean (names : List String) : String :=
  if names = [] then "" else ", did you mean: " ++ String.intercalate ", " names ++ "?"

end ConfigTemplate
