import ConfigTemplate.Formula.Error
import ConfigTemplate.Text.Word

/-!
# Cutting a formula into tokens

Blanks between tokens are dropped, and a word is as long as it can be. `lexemes` stops at the first
character that is neither a blank nor the start of a token.
-/

namespace ConfigTemplate.Formula

namespace Token

/-- The first token of a text, the number of its characters and the text after it. -/
def split? : List Char → Option (Token × Nat × List Char)
  | '&' :: '&' :: rest => some (.connective .and, 2, rest)
  | '|' :: '|' :: rest => some (.connective .or, 2, rest)
  | '^' :: '^' :: rest => some (.connective .xor, 2, rest)
  | '!' :: rest => some (.negation, 1, rest)
  | '(' :: rest => some (.openParen, 1, rest)
  | ')' :: rest => some (.closeParen, 1, rest)
  | c :: rest =>
    if Text.isWordStart c then
      let word := c :: rest.takeWhile Text.isWordPart
      some (ofWord (String.ofList word), word.length, rest.dropWhile Text.isWordPart)
    else none
  | [] => none

theorem length_of_split? {cs rest : List Char} {token : Token} {width : Nat}
    (found : split? cs = some (token, width, rest)) :
    0 < width ∧ rest.length + width = cs.length := by
  unfold split? at found
  split at found
  case h_7 c tail _ _ _ _ _ _ =>
    split at found
    · cases found
      have whole := congrArg List.length
        (List.takeWhile_append_dropWhile : tail.takeWhile Text.isWordPart ++ _ = tail)
      simp only [List.length_append] at whole
      simp only [List.length_cons]
      omega
    · cases found
  case h_8 => cases found
  all_goals cases found; simp

end Token

/-- The blanks that may stand between two tokens. -/
def isBlank (c : Char) : Bool :=
  c == ' ' || c == '\t' || c == '\n' || c == '\x0c' || c == '\r'

/-- The tokens of a text whose first character stands in the given column. -/
def lexemesFrom (column : Nat) (cs : List Char) : Except ParseError (List Lexeme) :=
  match cs with
  | [] => .ok []
  | c :: tail =>
    if isBlank c then lexemesFrom (column + 1) tail
    else
      match _found : Token.split? (c :: tail) with
      | none => .error (.malformed column (.unknownCharacter c))
      | some (token, width, rest) =>
        (lexemesFrom (column + width) rest).map (⟨token, column⟩ :: ·)
termination_by cs.length
decreasing_by
  · simp
  · have := Token.length_of_split? _found
    omega

/-- The tokens of a source with their columns. -/
def lexemes (source : String) : Except ParseError (List Lexeme) :=
  lexemesFrom 1 source.toList

end ConfigTemplate.Formula
