import ConfigTemplate.Proofs.Formula.Spelling
import Mathlib.Data.List.Basic
import Mathlib.Data.List.TakeWhile

/-!
# What a source is cut into

A source is cut into the lexemes of which it is written. The cut fails just where no token starts: the
characters up to there are written, and no word goes on behind them.

Results:
1. `Token.spelling_of_split?`: what is cut off a text is the spelling of a token.
2. `spelled_of_lexemesFrom`, `Spelled.lexemesFrom_of_stuck`, `stuck_of_lexemesFrom`: what it means
   for a text that cutting it succeeds or fails.
3. `lexemes_exact`: all this for the sources of formulas.
-/

namespace ConfigTemplate.Formula

/-- No word goes on from one text into the other. -/
def Apart (front behind : List Char) : Prop :=
  ∀ last ∈ front.getLast?, ∀ next ∈ behind.head?, Text.isWordPart last → ¬ Text.isWordPart next

/-- Neither a blank nor a token stands at the beginning of a text. -/
def Stuck (c : Char) (rest : List Char) : Prop :=
  ¬ isBlank c ∧ ∀ token : Token, token.Proper → ¬ token.spelling.toList <+: c :: rest

/-! ## Single tokens -/

theorem isWordPart_of_isWordStart {c : Char} (start : Text.isWordStart c) : Text.isWordPart c := by
  simp only [Text.isWordStart, Bool.or_eq_true] at start
  simp only [Text.isWordPart, Char.isAlphanum, Bool.or_eq_true]
  exact .inl (start.imp_left .inl)

namespace Token

variable {token : Token} {cs rest : List Char} {width : Nat}

/-- A word stands for a token that is spelled like it. -/
theorem spelling_ofWord (word : String) : (ofWord word).spelling = word := by
  unfold ofWord
  split
  · rename_i same
    exact same.symm
  split
  · rename_i same
    exact same.symm
  · rfl

theorem proper_ofWord {c : Char} (start : Text.isWordStart c) (parts : ∀ d ∈ cs, Text.isWordPart d) :
    (ofWord (String.ofList (c :: cs))).Proper := by
  intro text same
  unfold ofWord at same
  split at same
  · cases same
  split at same
  · cases same
  · rename_i noTrue noFalse
    cases same
    exact ⟨⟨c, cs, String.toList_ofList, start, parts⟩, noTrue, noFalse⟩

/-- A word is cut off as a whole. -/
theorem word_ends (tail : List Char) :
    ∀ d ∈ (tail.dropWhile Text.isWordPart).head?, ¬ Text.isWordPart d := by
  intro d next
  have stops := List.head?_dropWhile_not Text.isWordPart tail
  rw [Option.mem_def.1 next] at stops
  simpa using stops

/-- What is cut off a text is the spelling of a token that cannot go on there. -/
theorem spelling_of_split? (found : split? cs = some (token, width, rest)) :
    token.Proper ∧ width = token.spelling.length ∧ cs = token.spelling.toList ++ rest ∧
      (token.isWord → ∀ c ∈ rest.head?, ¬ Text.isWordPart c) := by
  unfold split? at found
  split at found
  case h_7 c tail _ _ _ _ _ _ =>
    split at found
    · rename_i start
      cases found
      have parts : ∀ d ∈ tail.takeWhile Text.isWordPart, Text.isWordPart d :=
        fun d member => List.mem_takeWhile_imp member
      refine ⟨proper_ofWord start parts, ?_, ?_, fun _ => word_ends tail⟩
      · rw [spelling_ofWord, String.length_ofList]
      · rw [spelling_ofWord, String.toList_ofList, List.cons_append, List.takeWhile_append_dropWhile]
    · cases found
  case h_8 => cases found
  all_goals
    cases found
    exact ⟨nofun, rfl, rfl, nofun⟩

/-- The last letter of a spelling tells whether the token is a word. -/
theorem getLast?_spelling (proper : token.Proper) :
    ∃ last, token.spelling.toList.getLast? = some last ∧ (Text.isWordPart last ↔ token.isWord) := by
  cases token with
  | connective operation => cases operation <;> exact ⟨_, rfl, by decide⟩
  | negation | openParen | closeParen => exact ⟨_, rfl, by decide⟩
  | constant value => cases value <;> exact ⟨_, rfl, by decide⟩
  | name text =>
    obtain ⟨c, cs, spelled, start, parts⟩ := (proper text rfl).word
    have letters : ∀ d ∈ c :: cs, Text.isWordPart d :=
      List.forall_mem_cons.2 ⟨isWordPart_of_isWordStart start, parts⟩
    refine ⟨(c :: cs).getLast (List.cons_ne_nil c cs), ?_, ?_⟩
    · rw [spelling, spelled, List.getLast?_eq_some_getLast]
    · exact iff_of_true (letters _ (List.getLast_mem _)) rfl

theorem apart_spelling (proper : token.Proper) (behind : List Char) :
    Apart token.spelling.toList behind ↔
      (token.isWord → ∀ c ∈ behind.head?, ¬ Text.isWordPart c) := by
  obtain ⟨last, ends, word⟩ := getLast?_spelling proper
  unfold Apart
  rw [ends]
  simp only [Option.mem_some, forall_eq', word]
  exact ⟨fun apart isWord c next => apart c next isWord, fun apart c next isWord => apart isWord c next⟩

/-- A word begins with a letter or an underscore. -/
theorem spelling_of_isWord (proper : token.Proper) (word : token.isWord) :
    ∃ c others, token.spelling.toList = c :: others ∧ Text.isWordStart c := by
  cases token with
  | connective | negation | openParen | closeParen => cases word
  | constant value => cases value <;> exact ⟨_, _, rfl, by decide⟩
  | name text =>
    obtain ⟨c, cs, spelled, start, -⟩ := (proper text rfl).word
    exact ⟨c, cs, spelled, start⟩

/-- Some word is cut off wherever a word can start. -/
theorem split?_isSome_of_isWordStart {c : Char} (start : Text.isWordStart c) (tail : List Char) :
    (split? (c :: tail)).isSome := by
  have parts : ∀ d ∈ tail.takeWhile Text.isWordPart, Text.isWordPart d :=
    fun d member => List.mem_takeWhile_imp member
  have splits := split?_word start parts (word_ends tail)
  rw [List.cons_append, List.takeWhile_append_dropWhile] at splits
  rw [splits]
  rfl

/-- Some token is cut off a text just if some token starts there, though it may be a longer one. -/
theorem split?_eq_none_iff {c : Char} :
    split? (c :: rest) = none ↔ ∀ token : Token, token.Proper → ¬ token.spelling.toList <+: c :: rest := by
  constructor
  · rintro missing token proper ⟨behind, same⟩
    have starts : token.isWord → Text.isWordStart c := by
      intro word
      obtain ⟨first, others, spelled, start⟩ := spelling_of_isWord proper word
      rw [spelled] at same
      cases same
      exact start
    cases word : token.isWord with
    | true =>
      have found := split?_isSome_of_isWordStart (starts word) rest
      rw [missing] at found
      cases found
    | false =>
      have ends : token.isWord → ∀ d ∈ behind.head?, ¬ Text.isWordPart d :=
        fun isWord => nomatch word.symm.trans isWord
      have found := split?_spelling proper ends
      rw [same, missing] at found
      cases found
  · intro strange
    cases splits : split? (c :: rest) with
    | none => rfl
    | some result =>
      obtain ⟨token, width, behind⟩ := result
      obtain ⟨proper, -, same, -⟩ := spelling_of_split? splits
      exact absurd ⟨behind, same.symm⟩ (strange token proper)

end Token

/-! ## Texts -/

theorem apart_nil (behind : List Char) : Apart [] behind := nofun

/-- Only the last part of a text matters for what may stand behind it. -/
theorem apart_append {middle : List Char} (present : middle ≠ []) (front behind : List Char) :
    Apart (front ++ middle) behind ↔ Apart middle behind := by
  rw [Apart, List.getLast?_append_of_ne_nil front present, Apart]

/-- A blank belongs to no word. -/
theorem apart_blank {b : Char} (blank : isBlank b) (front behind : List Char) :
    Apart (b :: front) behind ↔ Apart front behind := by
  cases front with
  | nil =>
    refine iff_of_true ?_ (apart_nil behind)
    rintro last ends next - part
    cases ends
    simp only [isBlank, Bool.or_eq_true, beq_iff_eq] at blank
    rcases blank with (((rfl | rfl) | rfl) | rfl) | rfl <;> exact absurd part (by decide)
  | cons c front => exact apart_append (List.cons_ne_nil c front) [b] behind

/-- Three texts are apart from each other in whatever order they are put together. -/
theorem apart_assoc (front middle behind : List Char) :
    Apart front (middle ++ behind) ∧ Apart middle behind ↔
      Apart front middle ∧ Apart (front ++ middle) behind := by
  cases middle with
  | nil =>
    rw [List.nil_append, List.append_nil]
    exact ⟨fun ⟨apart, _⟩ => ⟨(fun _ _ _ next => nomatch next), apart⟩,
      fun ⟨_, apart⟩ => ⟨apart, apart_nil _⟩⟩
  | cons c middle =>
    rw [apart_append (List.cons_ne_nil c middle)]
    exact Iff.rfl

/-- Cutting a text gives lexemes of which it is written. -/
theorem spelled_of_lexemesFrom {column : Nat} {cs : List Char} {found : List Lexeme}
    (cut : lexemesFrom column cs = .ok found) : Spelled column cs found := by
  fun_induction lexemesFrom column cs generalizing found with
  | case1 column =>
    cases cut
    exact .nil
  | case2 column c tail blank ih => exact .blank blank (ih cut)
  | case3 column c tail visible missing => cases cut
  | case4 column c tail visible token width rest splits ih =>
    cases further : lexemesFrom (column + width) rest with
    | error cause => rw [further] at cut; cases cut
    | ok others =>
      rw [further] at cut
      cases cut
      obtain ⟨proper, rfl, same, ends⟩ := Token.spelling_of_split? splits
      rw [same]
      exact .token proper ends (ih further)

/-- When cutting a text fails, the text is written up to the character that is reported. -/
theorem stuck_of_lexemesFrom {column : Nat} {cs : List Char} {cause : ParseError}
    (cut : lexemesFrom column cs = .error cause) :
    ∃ front c rest found, cs = front ++ c :: rest ∧
      cause = .malformed (column + front.length) (.unknownCharacter c) ∧
      Spelled column front found ∧ Apart front (c :: rest) ∧ Stuck c rest := by
  fun_induction lexemesFrom column cs with
  | case1 column => cases cut
  | case2 column b tail blank ih =>
    obtain ⟨front, c, rest, found, rfl, rfl, spelled, apart, stuck⟩ := ih cut
    refine ⟨b :: front, c, rest, found, rfl, ?_, .blank blank spelled,
      (apart_blank blank front _).2 apart, stuck⟩
    rw [List.length_cons, Nat.add_right_comm, Nat.add_assoc]
  | case3 column c tail visible missing =>
    cases cut
    exact ⟨[], c, tail, [], rfl, rfl, .nil, apart_nil _, visible, Token.split?_eq_none_iff.1 missing⟩
  | case4 column b tail visible token width rest splits ih =>
    cases further : lexemesFrom (column + width) rest with
    | ok others => rw [further] at cut; cases cut
    | error why =>
      rw [further] at cut
      cases cut
      obtain ⟨proper, rfl, same, ends⟩ := Token.spelling_of_split? splits
      obtain ⟨front, c, rest, found, rfl, rfl, spelled, apart, stuck⟩ := ih further
      obtain ⟨ends, apart⟩ := (apart_assoc _ front (c :: rest)).1
        ⟨(Token.apart_spelling proper _).2 ends, apart⟩
      refine ⟨token.spelling.toList ++ front, c, rest, ⟨token, column⟩ :: found, ?_, ?_,
        .token proper ((Token.apart_spelling proper front).1 ends) spelled, apart, stuck⟩
      · rw [same, List.append_assoc]
      · rw [List.length_append, String.length_toList, Nat.add_assoc]

/-- Cutting a text fails behind what is written of it, if it is stuck there. -/
theorem Spelled.lexemesFrom_of_stuck {column : Nat} {front : List Char} {found : List Lexeme}
    {c : Char} {rest : List Char} (spelled : Spelled column front found)
    (apart : Apart front (c :: rest)) (stuck : Stuck c rest) :
    Formula.lexemesFrom column (front ++ c :: rest) =
      .error (.malformed (column + front.length) (.unknownCharacter c)) := by
  induction spelled with
  | nil =>
    rw [List.nil_append, Formula.lexemesFrom, if_neg stuck.1]
    split
    · rfl
    · rename_i splits
      cases (Token.split?_eq_none_iff.2 stuck.2).symm.trans splits
  | @blank column b front found blank further ih =>
    rw [List.cons_append, Formula.lexemesFrom, if_pos blank, ih ((apart_blank blank front _).1 apart),
      List.length_cons, Nat.add_right_comm, Nat.add_assoc]
  | @token column token front found proper ends further ih =>
    obtain ⟨ends, apart⟩ := (apart_assoc _ front (c :: rest)).2
      ⟨(Token.apart_spelling proper front).2 ends, apart⟩
    have splits := Token.split?_spelling proper ((Token.apart_spelling proper _).1 ends)
    obtain ⟨first, others, starts, visible⟩ := Token.spelling_starts proper
    rw [List.append_assoc, List.length_append, String.length_toList]
    rw [starts, List.cons_append] at splits ⊢
    rw [Formula.lexemesFrom, if_neg visible]
    split
    · rename_i missing
      cases missing.symm.trans splits
    · rename_i found
      cases found.symm.trans splits
      rw [ih apart, Nat.add_assoc]
      rfl

/-! ## Sources -/

/-- A source is cut into lexemes just if it is written with them, so there is at most one such list.
Cutting it fails at the character that is reported, if the characters before are written with some
lexemes, no word goes on from them, and neither a blank nor a token starts there. -/
theorem lexemes_exact (source : String) :
    (∀ found, lexemes source = .ok found ↔ Spelled 1 source.toList found) ∧
    (∀ found others, Spelled 1 source.toList found → Spelled 1 source.toList others →
      found = others) ∧
    ∀ cause, lexemes source = .error cause ↔
      ∃ front c rest found, source.toList = front ++ c :: rest ∧
        cause = .malformed (1 + front.length) (.unknownCharacter c) ∧
        Spelled 1 front found ∧ Apart front (c :: rest) ∧ Stuck c rest := by
  refine ⟨fun found => ⟨spelled_of_lexemesFrom, Spelled.lexemesFrom⟩, ?_,
    fun cause => ⟨stuck_of_lexemesFrom, ?_⟩⟩
  · intro found others spelled spelledOthers
    exact Except.ok.inj (spelled.lexemesFrom.symm.trans spelledOthers.lexemesFrom)
  · rintro ⟨front, c, rest, found, same, rfl, spelled, apart, stuck⟩
    rw [lexemes, same]
    exact spelled.lexemesFrom_of_stuck apart stuck

end ConfigTemplate.Formula
