import ConfigTemplate.Formula.Lexeme

/-!
# How tokens are written

A source is written with the spellings of its tokens and with blanks between them. A word ends where a
character follows that cannot belong to it. The relation here says so without a tokenizer.

Results:
1. `Token.split?_spelling`: the spelling of a token is cut off a text as this token.
2. `Spelled.lexemesFrom`: cutting a text that is written so gives its tokens, with their columns.
3. `Writes.append`: texts can be put together where no word goes on.
-/

namespace ConfigTemplate.Formula

/-- A name that a formula can mention is a word other than the two constants. -/
structure IsIdentifier (name : String) : Prop where
  word : ∃ c cs, name.toList = c :: cs ∧ Text.isWordStart c ∧ ∀ d ∈ cs, Text.isWordPart d
  ne_true : name ≠ "true"
  ne_false : name ≠ "false"

namespace Token

/-- Words go on with the letters that follow them. -/
def isWord : Token → Bool
  | .constant _ | .name _ => true
  | .connective _ | .negation | .openParen | .closeParen => false

/-- The token can be cut from some source. -/
def Proper (token : Token) : Prop := ∀ text, token = .name text → IsIdentifier text

end Token

/-- The characters of lexemes, of which the first stands in the given column or behind it. -/
inductive Spelled : Nat → List Char → List Lexeme → Prop where
  | nil {column : Nat} : Spelled column [] []
  | blank {column : Nat} {c : Char} {cs : List Char} {lexemes : List Lexeme} (blank : isBlank c)
      (further : Spelled (column + 1) cs lexemes) : Spelled column (c :: cs) lexemes
  | token {column : Nat} {token : Token} {rest : List Char} {lexemes : List Lexeme}
      (proper : token.Proper) (ends : token.isWord → ∀ c ∈ rest.head?, ¬ Text.isWordPart c)
      (further : Spelled (column + token.spelling.length) rest lexemes) :
      Spelled column (token.spelling.toList ++ rest) (⟨token, column⟩ :: lexemes)

/-! ## The first token -/

namespace Token

theorem split?_word {c : Char} {cs rest : List Char} (start : Text.isWordStart c)
    (parts : ∀ d ∈ cs, Text.isWordPart d) (ends : ∀ d ∈ rest.head?, ¬ Text.isWordPart d) :
    split? (c :: cs ++ rest) = some (ofWord (String.ofList (c :: cs)), (c :: cs).length, rest) := by
  have stop : rest.takeWhile Text.isWordPart = [] ∧ rest.dropWhile Text.isWordPart = rest := by
    cases rest with
    | nil => exact ⟨rfl, rfl⟩
    | cons d rest => simp [ends d rfl]
  have taken : (cs ++ rest).takeWhile Text.isWordPart = cs := by
    rw [List.takeWhile_append_of_pos parts, stop.1, List.append_nil]
  have dropped : (cs ++ rest).dropWhile Text.isWordPart = rest := by
    rw [List.dropWhile_append_of_pos parts, stop.2]
  have other : ∀ d : Char, ¬ Text.isWordStart d → c ≠ d := fun d plain same => plain (same ▸ start)
  rw [List.cons_append]
  unfold split?
  split
  case h_7 first tail _ _ _ _ _ _ same =>
    obtain ⟨rfl, rfl⟩ := List.cons.inj same
    rw [if_pos start, taken, dropped]
  case h_8 => rename_i same; cases same
  all_goals
    rename_i same
    exact absurd (List.cons.inj same).1 (other _ (by decide))

theorem ofWord_of_isIdentifier {text : String} (identifier : IsIdentifier text) :
    ofWord text = .name text := by
  rw [ofWord, if_neg identifier.ne_true, if_neg identifier.ne_false]

/-- The spelling of a token is cut off as this token, whatever follows it. -/
theorem split?_spelling {token : Token} {rest : List Char} (proper : token.Proper)
    (ends : token.isWord → ∀ c ∈ rest.head?, ¬ Text.isWordPart c) :
    split? (token.spelling.toList ++ rest) = some (token, token.spelling.length, rest) := by
  cases token with
  | connective operation => cases operation <;> rfl
  | negation => rfl
  | openParen => rfl
  | closeParen => rfl
  | constant value =>
    cases value with
    | true => exact @split?_word 't' ['r', 'u', 'e'] rest rfl (List.all_eq_true.1 rfl) (ends rfl)
    | false => exact @split?_word 'f' ['a', 'l', 's', 'e'] rest rfl (List.all_eq_true.1 rfl) (ends rfl)
  | name text =>
    have identifier := proper text rfl
    obtain ⟨c, cs, spelled, start, parts⟩ := identifier.word
    have whole : String.ofList (c :: cs) = text := by rw [← spelled, String.ofList_toList]
    have width : (c :: cs).length = text.length := by rw [← spelled, String.length_toList]
    rw [spelling, spelled, split?_word start parts (ends rfl), whole, width,
      ofWord_of_isIdentifier identifier]

/-- No token begins with a blank. -/
theorem spelling_starts {token : Token} (proper : token.Proper) :
    ∃ c cs, token.spelling.toList = c :: cs ∧ ¬ isBlank c := by
  cases token with
  | connective operation => cases operation <;> exact ⟨_, _, rfl, by decide⟩
  | negation | openParen | closeParen => exact ⟨_, _, rfl, by decide⟩
  | constant value => cases value <;> exact ⟨_, _, rfl, by decide⟩
  | name text =>
    obtain ⟨c, cs, spelled, start, -⟩ := (proper text rfl).word
    refine ⟨c, cs, spelled, fun blank => ?_⟩
    simp only [isBlank, Bool.or_eq_true, beq_iff_eq] at blank
    rcases blank with (((rfl | rfl) | rfl) | rfl) | rfl <;> exact absurd start (by decide)

end Token

/-! ## All tokens -/

/-- Cutting a text gives the lexemes of which it is written. -/
theorem Spelled.lexemesFrom {column : Nat} {cs : List Char} {lexemes : List Lexeme}
    (spelled : Spelled column cs lexemes) : Formula.lexemesFrom column cs = .ok lexemes := by
  induction spelled with
  | nil => rw [Formula.lexemesFrom]
  | blank blank further ih => rw [Formula.lexemesFrom, if_pos blank, ih]
  | @token column token rest lexemes proper ends further ih =>
    have splits := Token.split?_spelling proper ends
    obtain ⟨c, cs, starts, visible⟩ := Token.spelling_starts proper
    rw [starts, List.cons_append] at splits ⊢
    rw [Formula.lexemesFrom, if_neg visible]
    split
    · rename_i missing
      cases missing.symm.trans splits
    · rename_i found
      cases found.symm.trans splits
      rw [ih]
      rfl

/-! ## Putting texts together -/

/-- The characters are those of the tokens, in front of anything that cannot belong to a word. -/
def Writes (text : List Char) (tokens : List Token) : Prop :=
  ∀ column rest others, (∀ c ∈ rest.head?, ¬ Text.isWordPart c) →
    Spelled (column + text.length) rest others →
      ∃ front, front.map Lexeme.token = tokens ∧ Spelled column (text ++ rest) (front ++ others)

namespace Writes

variable {first second : List Char} {tokens others : List Token}

theorem nil : Writes [] [] := fun _ _ _ _ further => ⟨[], rfl, further⟩

theorem token {token : Token} (proper : token.Proper) : Writes token.spelling.toList [token] := by
  intro column rest lexemes ends further
  rw [String.length_toList] at further
  exact ⟨[⟨token, column⟩], rfl, .token proper (fun _ => ends) further⟩

/-- A token that is no word may stand in front of anything. -/
theorem symbol {token : Token} (noWord : token.isWord = false) (writes : Writes first tokens) :
    Writes (token.spelling.toList ++ first) (token :: tokens) := by
  intro column rest lexemes ends further
  rw [List.length_append, String.length_toList, ← Nat.add_assoc] at further
  obtain ⟨front, same, spelled⟩ := writes _ rest lexemes ends further
  refine ⟨⟨token, column⟩ :: front, congrArg (token :: ·) same, ?_⟩
  rw [List.append_assoc]
  refine .token ?_ (fun word => nomatch noWord.symm.trans word) spelled
  rintro name rfl
  cases noWord

theorem blank {c : Char} (blank : isBlank c) (writes : Writes first tokens) :
    Writes (c :: first) tokens := by
  intro column rest lexemes ends further
  rw [List.length_cons, Nat.add_comm first.length, ← Nat.add_assoc] at further
  obtain ⟨front, same, spelled⟩ := writes _ rest lexemes ends further
  exact ⟨front, same, .blank blank spelled⟩

/-- Texts can be put together if the second one does not go on with a word of the first one. -/
theorem append {c : Char} (writes : Writes first tokens) (further : Writes (c :: second) others)
    (ends : ¬ Text.isWordPart c) : Writes (first ++ c :: second) (tokens ++ others) := by
  intro column rest lexemes stops behind
  rw [List.length_append, ← Nat.add_assoc] at behind
  obtain ⟨back, sameBack, spelledBack⟩ := further _ rest lexemes stops behind
  have apart : ∀ d ∈ (c :: second ++ rest).head?, ¬ Text.isWordPart d := by
    rintro d found
    cases found
    exact ends
  obtain ⟨front, sameFront, spelled⟩ := writes _ _ _ apart spelledBack
  refine ⟨front ++ back, by rw [List.map_append, sameFront, sameBack], ?_⟩
  rw [List.append_assoc, List.append_assoc]
  exact spelled

/-- The lexemes of a text that is put together so are its tokens. -/
theorem lexemes {source : String} (writes : Writes source.toList tokens) :
    ∃ found, lexemes source = .ok found ∧ found.map Lexeme.token = tokens := by
  obtain ⟨front, same, spelled⟩ := writes 1 [] [] nofun .nil
  rw [List.append_nil, List.append_nil] at spelled
  exact ⟨front, spelled.lexemesFrom, same⟩

end Writes

end ConfigTemplate.Formula
