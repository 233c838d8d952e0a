import ConfigTemplate.Formula.Grammar

/-!
# Derivations of formulas

The grammar of formulas without any reader: a `Derivation` is one way to derive a phrase, with its
tokens, the formula that it stands for and the levels that it nests.

Results:
1. `tokens_inj`: a list of tokens has at most one derivation as a given phrase.
2. `sound_levelFor` and `complete_levelFor`: the readers of a level find the derivations that nest
   less than the level allows, and no other ones.
3. `parse_eq_ok_iff`: reading succeeds exactly for the derivable sources that nest at most 256
   levels, with the formula of the derivation.
-/

namespace ConfigTemplate

/-- How tightly a connective binds. -/
def Connective.strength : Connective → Nat
  | .or => 0
  | .and => 1
  | .xor => 2

namespace Formula

/-! ## The grammar -/

/-- The kinds of phrase that the grammar derives. -/
inductive Phrase where
  /-- Operands joined by one connective, or a single operand. -/
  | chain (connective : Connective)
  | unary
  | primary
deriving DecidableEq, Repr

/-- The phrase that stands on the left of a connective. -/
def Phrase.operandOf : Connective → Phrase
  | .or => .chain .and
  | .and => .chain .xor
  | .xor => .unary

/-- A phrase takes in the connectives behind it that bind at least this tightly. -/
def Phrase.strength : Phrase → Nat
  | .chain connective => connective.strength
  | .unary | .primary => 3

/-- The derivations of a phrase, one constructor for each alternative of the grammar. -/
inductive Derivation : Phrase → Type where
  | single {connective : Connective} (only : Derivation (.operandOf connective)) :
      Derivation (.chain connective)
  | joined {connective : Connective} (first : Derivation (.operandOf connective))
      (others : Derivation (.chain connective)) : Derivation (.chain connective)
  | negation (operand : Derivation .unary) : Derivation .unary
  | primary (inner : Derivation .primary) : Derivation .unary
  | constant (value : Bool) : Derivation .primary
  | name (text : String) : Derivation .primary
  | parenthesised (inner : Derivation (.chain .or)) : Derivation .primary

namespace Derivation

/-- The tokens that are derived. -/
def tokens {phrase : Phrase} : Derivation phrase → List Token
  | .single only => only.tokens
  | @joined connective first others =>
    first.tokens ++ .connective connective :: others.tokens
  | .negation operand => .negation :: operand.tokens
  | .primary inner => inner.tokens
  | .constant value => [.constant value]
  | .name text => [.name text]
  | .parenthesised inner => .openParen :: (inner.tokens ++ [.closeParen])

/-- The formula that is derived. Parentheses leave no trace in it. -/
def formula {phrase : Phrase} : Derivation phrase → Formula
  | .single only => only.formula
  | @joined connective first others =>
    .binary connective first.formula others.formula
  | .negation operand => .negation operand.formula
  | .primary inner => inner.formula
  | .constant value => .constant value
  | .name text => .condition text
  | .parenthesised inner => inner.formula

/-- The levels below the outermost one. Right operands, operands of `!` and what is in parentheses
each stand one level deeper than what encloses them. -/
def nesting {phrase : Phrase} : Derivation phrase → Nat
  | .single only => only.nesting
  | .joined first others => max first.nesting (others.nesting + 1)
  | .negation operand => operand.nesting + 1
  | .primary inner => inner.nesting
  | .constant _ | .name _ => 0
  | .parenthesised inner => inner.nesting + 1

end Derivation

/-! ## Uniqueness -/

/-- A phrase of the given strength cannot go on with these tokens. -/
def Stops (strength : Nat) (rest : List Token) : Prop :=
  ∀ connective, rest.head? = some (.connective connective) → connective.strength < strength

theorem Stops.mono {weak strong : Nat} {rest : List Token} (stops : Stops weak rest)
    (le : weak ≤ strong) : Stops strong rest :=
  fun connective found => Nat.lt_of_lt_of_le (stops connective found) le

theorem stops_nil (strength : Nat) : Stops strength [] := by
  intro connective found
  cases found

theorem stops_closeParen (strength : Nat) (rest : List Token) :
    Stops strength (.closeParen :: rest) := by
  intro connective found
  cases found

theorem strength_operandOf (connective : Connective) :
    (Phrase.operandOf connective).strength = connective.strength + 1 := by
  cases connective <;> rfl

/-- An operand stops in front of its connective. -/
theorem stops_connective (connective : Connective) (rest : List Token) :
    Stops (Phrase.operandOf connective).strength (.connective connective :: rest) := by
  intro found same
  cases same
  rw [strength_operandOf]
  exact Nat.lt_succ_self _

theorem Stops.operand {connective : Connective} {rest : List Token}
    (stops : Stops (Phrase.chain connective).strength rest) :
    Stops (Phrase.operandOf connective).strength rest :=
  stops.mono (by rw [strength_operandOf]; exact Nat.le_succ _)

theorem not_stops_connective (connective : Connective) (rest : List Token) :
    ¬ Stops (Phrase.chain connective).strength (.connective connective :: rest) :=
  fun stops => Nat.lt_irrefl _ (stops connective rfl)

theorem head_ne_negation (inner : Derivation .primary) (rest others : List Token) :
    inner.tokens ++ rest ≠ .negation :: others := by
  cases inner <;> simp [Derivation.tokens]

/-- Where a phrase ends is determined by the tokens, and so is its derivation. -/
theorem tokens_append_inj {phrase : Phrase} (left right : Derivation phrase)
    {afterLeft afterRight : List Token}
    (same : left.tokens ++ afterLeft = right.tokens ++ afterRight)
    (stopsLeft : Stops phrase.strength afterLeft) (stopsRight : Stops phrase.strength afterRight) :
    left = right ∧ afterLeft = afterRight := by
  induction left generalizing afterLeft afterRight with
  | @single connective only ih =>
    cases right with
    | single other =>
      obtain ⟨rfl, rest⟩ := ih other same stopsLeft.operand stopsRight.operand
      exact ⟨rfl, rest⟩
    | joined first others =>
      rw [Derivation.tokens, Derivation.tokens, List.append_assoc] at same
      obtain ⟨-, rest⟩ := ih first same stopsLeft.operand (stops_connective _ _)
      exact absurd (rest ▸ stopsLeft) (not_stops_connective _ _)
  | @joined connective first others ihFirst ihOthers =>
    cases right with
    | single other =>
      rw [Derivation.tokens, Derivation.tokens, List.append_assoc] at same
      obtain ⟨-, rest⟩ := ihFirst other same (stops_connective _ _) stopsRight.operand
      exact absurd (rest ▸ stopsRight) (not_stops_connective _ _)
    | joined otherFirst otherOthers =>
      rw [Derivation.tokens, Derivation.tokens, List.append_assoc, List.append_assoc] at same
      obtain ⟨rfl, rest⟩ := ihFirst otherFirst same (stops_connective _ _) (stops_connective _ _)
      obtain ⟨rfl, afterwards⟩ :=
        ihOthers otherOthers (List.cons.inj rest).2 stopsLeft stopsRight
      exact ⟨rfl, afterwards⟩
  | negation operand ih =>
    cases right with
    | negation other =>
      obtain ⟨rfl, rest⟩ := ih other (List.cons.inj same).2 stopsLeft stopsRight
      exact ⟨rfl, rest⟩
    | primary other => exact absurd same.symm (head_ne_negation other _ _)
  | primary inner ih =>
    cases right with
    | negation other => exact absurd same (head_ne_negation inner _ _)
    | primary other =>
      obtain ⟨rfl, rest⟩ := ih other same stopsLeft stopsRight
      exact ⟨rfl, rest⟩
  | constant value =>
    cases right with
    | constant other => simpa [Derivation.tokens] using same
    | name | parenthesised => simp [Derivation.tokens] at same
  | name text =>
    cases right with
    | name other => simpa [Derivation.tokens] using same
    | constant | parenthesised => simp [Derivation.tokens] at same
  | parenthesised inner ih =>
    cases right with
    | parenthesised other =>
      simp only [Derivation.tokens, List.cons_append, List.append_assoc, List.cons.injEq,
        true_and] at same
      obtain ⟨rfl, rest⟩ := ih other same (stops_closeParen _ _) (stops_closeParen _ _)
      exact ⟨rfl, (List.cons.inj rest).2⟩
    | constant | name => simp [Derivation.tokens] at same

/-- A list of tokens has at most one derivation as a given phrase. -/
theorem tokens_inj {phrase : Phrase} {left right : Derivation phrase}
    (same : left.tokens = right.tokens) : left = right :=
  (tokens_append_inj left right (congrArg (· ++ []) same) (stops_nil _) (stops_nil _)).1

/-! ## Levels -/

namespace Level

/-- The level in which derivations nest less than the given number of levels. -/
def levelFor (endColumn : Nat) : Nat → Level
  | 0 => tooDeep endColumn
  | bound + 1 => above endColumn (levelFor endColumn bound)

theorem withDepth_eq_levelFor (endColumn depth : Nat) :
    withDepth endColumn depth = levelFor endColumn (depth + 1) := by
  induction depth with
  | zero => rfl
  | succ depth ih =>
    rw [withDepth, ih]
    rfl

/-- The reader of a phrase. A primary is read as a unary phrase. -/
def reader (level : Level) : Phrase → Reader
  | .chain .or => level.disjunction
  | .chain .and => level.conjunction
  | .chain .xor => level.exclusive
  | .unary | .primary => level.unary

theorem reader_chain (endColumn : Nat) (deeper : Level) (connective : Connective) :
    (above endColumn deeper).reader (.chain connective) =
      joined connective ((above endColumn deeper).reader (.operandOf connective))
        (deeper.reader (.chain connective)) := by
  cases connective <;> rfl

theorem reader_tooDeep (endColumn : Nat) (phrase : Phrase) (lexemes : List Lexeme) :
    ((tooDeep endColumn).reader phrase) lexemes =
      .error (.malformed (columnOf endColumn lexemes) .nestedTooDeeply) := by
  cases phrase with
  | chain connective => cases connective <;> rfl
  | unary | primary => rfl

end Level

/-! ## Readers find derivations -/

open Level

/-- What was read is derived as a phrase that nests less than the bound. -/
def Derived (phrase : Phrase) (bound : Nat) (lexemes : List Lexeme) (formula : Formula)
    (rest : List Lexeme) : Prop :=
  ∃ derivation : Derivation phrase, derivation.formula = formula ∧ derivation.nesting < bound ∧
    ∃ consumed, consumed.map Lexeme.token = derivation.tokens ∧ lexemes = consumed ++ rest

/-- Whatever the reader reads is derived. -/
def Sound (phrase : Phrase) (bound : Nat) (reader : Reader) : Prop :=
  ∀ lexemes formula rest, reader lexemes = .ok (formula, rest) →
    Derived phrase bound lexemes formula rest

theorem Derived.single {connective : Connective} {bound : Nat} {lexemes rest : List Lexeme}
    {formula : Formula} (derived : Derived (.operandOf connective) bound lexemes formula rest) :
    Derived (.chain connective) bound lexemes formula rest := by
  obtain ⟨only, formulas, nests, consumed, tokens, split⟩ := derived
  exact ⟨.single only, formulas, nests, consumed, tokens, split⟩

theorem sound_joined {connective : Connective} {bound : Nat} {left right : Reader}
    (soundLeft : Sound (.operandOf connective) (bound + 1) left)
    (soundRight : Sound (.chain connective) bound right) :
    Sound (.chain connective) (bound + 1) (joined connective left right) := by
  intro lexemes formula rest found
  unfold joined at found
  cases leftFound : left lexemes with
  | error cause => simp [leftFound, bind, Except.bind] at found
  | ok result =>
    obtain ⟨first, afterFirst⟩ := result
    have derived := soundLeft lexemes first afterFirst leftFound
    simp only [leftFound, bind, Except.bind] at found
    split at found
    · rename_i other column after
      split at found
      · rename_i same
        subst same
        cases rightFound : right after with
        | error cause => simp [rightFound] at found
        | ok result =>
          obtain ⟨second, afterSecond⟩ := result
          simp only [rightFound] at found
          cases found
          obtain ⟨firstDerivation, rfl, firstNests, consumed, tokens, rfl⟩ := derived
          obtain ⟨others, rfl, othersNest, further, othersTokens, rfl⟩ :=
            soundRight after second rest rightFound
          refine ⟨.joined firstDerivation others, rfl, ?_,
            consumed ++ ⟨.connective other, column⟩ :: further, ?_, ?_⟩
          · exact Nat.max_lt.2 ⟨firstNests, Nat.succ_lt_succ othersNest⟩
          · simp [Derivation.tokens, tokens, othersTokens]
          · simp
      · cases found
        exact derived.single
    · cases found
      exact derived.single

theorem sound_operand {endColumn bound : Nat} {deeper : Level}
    (soundUnary : Sound .unary bound deeper.unary)
    (soundDisjunction : Sound (.chain .or) bound deeper.disjunction) :
    Sound .unary (bound + 1) (operand endColumn deeper) := by
  intro lexemes formula rest found
  match lexemes with
  | [] => cases found
  | ⟨.constant value, column⟩ :: after =>
    cases found
    exact ⟨.primary (.constant value), rfl, Nat.succ_pos _, [⟨.constant value, column⟩], rfl, rfl⟩
  | ⟨.name text, column⟩ :: after =>
    cases found
    exact ⟨.primary (.name text), rfl, Nat.succ_pos _, [⟨.name text, column⟩], rfl, rfl⟩
  | ⟨.negation, column⟩ :: after =>
    cases innerFound : deeper.unary after with
    | error cause => simp [operand, innerFound, bind, Except.bind] at found
    | ok result =>
      simp only [operand, innerFound, bind, Except.bind] at found
      cases found
      obtain ⟨inner, formulas, nests, consumed, tokens, rfl⟩ :=
        soundUnary after result.1 result.2 innerFound
      exact ⟨.negation inner, congrArg Formula.negation formulas, Nat.succ_lt_succ nests,
        ⟨.negation, column⟩ :: consumed, congrArg (_ :: ·) tokens, rfl⟩
  | ⟨.openParen, column⟩ :: after =>
    simp only [operand, parenthesised] at found
    cases innerFound : deeper.disjunction after with
    | error cause => simp [innerFound, bind, Except.bind] at found
    | ok result =>
      obtain ⟨content, behind⟩ := result
      simp only [innerFound, bind, Except.bind] at found
      split at found
      · rename_i closing afterwards
        cases found
        obtain ⟨inner, formulas, nests, consumed, tokens, rfl⟩ :=
          soundDisjunction after _ _ innerFound
        refine ⟨.primary (.parenthesised inner), formulas, Nat.succ_lt_succ nests,
          ⟨.openParen, column⟩ :: (consumed ++ [⟨.closeParen, closing⟩]), ?_, ?_⟩
        · simp [Derivation.tokens, tokens]
        · simp
      · cases found
  | ⟨.connective _, _⟩ :: _ | ⟨.closeParen, _⟩ :: _ => cases found

/-- Whatever the readers of a level read is derived with less nesting than the level allows. -/
theorem sound_levelFor (endColumn bound : Nat) :
    Sound .unary bound ((levelFor endColumn bound).reader .unary) ∧
      ∀ connective, Sound (.chain connective) bound
        ((levelFor endColumn bound).reader (.chain connective)) := by
  induction bound with
  | zero =>
    refine ⟨fun lexemes formula rest found => ?_, fun connective lexemes formula rest found => ?_⟩
    all_goals
      rw [levelFor, reader_tooDeep] at found
      cases found
  | succ bound ih =>
    obtain ⟨deeperUnary, deeperChain⟩ := ih
    have unary : Sound .unary (bound + 1) ((levelFor endColumn (bound + 1)).reader .unary) :=
      sound_operand deeperUnary (deeperChain .or)
    have exclusive : Sound (.chain .xor) (bound + 1) _ := sound_joined unary (deeperChain .xor)
    have conjunction : Sound (.chain .and) (bound + 1) _ :=
      sound_joined exclusive (deeperChain .and)
    have disjunction : Sound (.chain .or) (bound + 1) _ :=
      sound_joined conjunction (deeperChain .or)
    refine ⟨unary, fun connective => ?_⟩
    cases connective with
    | xor => exact exclusive
    | and => exact conjunction
    | or => exact disjunction

/-! ## Derivations are read -/

theorem joined_single {connective : Connective} {left right : Reader} {lexemes rest : List Lexeme}
    {first : Formula} (found : left lexemes = .ok (first, rest))
    (stops : Stops (Phrase.chain connective).strength (rest.map Lexeme.token)) :
    joined connective left right lexemes = .ok (first, rest) := by
  simp only [joined, found, bind, Except.bind]
  split
  · rename_i other column after
    split
    · rename_i same
      subst same
      exact absurd stops (not_stops_connective _ _)
    · rfl
  · rfl

theorem joined_both {connective : Connective} {left right : Reader}
    {lexemes after rest : List Lexeme} {first second : Formula} {column : Nat}
    (foundLeft : left lexemes = .ok (first, ⟨.connective connective, column⟩ :: after))
    (foundRight : right after = .ok (second, rest)) :
    joined connective left right lexemes = .ok (.binary connective first second, rest) := by
  simp [joined, foundLeft, foundRight, bind, Except.bind, pure, Except.pure]

theorem operand_negation (endColumn column : Nat) {deeper : Level} {after rest : List Lexeme}
    {formula : Formula} (found : deeper.unary after = .ok (formula, rest)) :
    operand endColumn deeper (⟨.negation, column⟩ :: after) = .ok (.negation formula, rest) := by
  simp [operand, found, bind, Except.bind, pure, Except.pure]

theorem operand_parenthesised (endColumn column : Nat) {closing : Nat} {deeper : Level}
    {after rest : List Lexeme} {formula : Formula}
    (found : deeper.disjunction after = .ok (formula, ⟨.closeParen, closing⟩ :: rest)) :
    operand endColumn deeper (⟨.openParen, column⟩ :: after) = .ok (formula, rest) := by
  simp [operand, parenthesised, found, bind, Except.bind, pure, Except.pure]

/-- The reader of a level reads every derivation that nests less than the level allows, provided
that the phrase cannot go on behind it. -/
theorem complete_levelFor (endColumn : Nat) {phrase : Phrase} (derivation : Derivation phrase)
    {depth : Nat} (nests : derivation.nesting ≤ depth) {consumed : List Lexeme}
    (tokens : consumed.map Lexeme.token = derivation.tokens) (rest : List Lexeme)
    (stops : Stops phrase.strength (rest.map Lexeme.token)) :
    (levelFor endColumn (depth + 1)).reader phrase (consumed ++ rest) =
      .ok (derivation.formula, rest) := by
  induction derivation generalizing depth consumed rest with
  | @single connective only ih =>
    rw [levelFor, reader_chain]
    exact joined_single (ih nests tokens rest stops.operand) stops
  | @joined connective first others ihFirst ihOthers =>
    obtain ⟨firstNests, othersNest⟩ := Nat.max_le.1 nests
    obtain ⟨front, back, rfl, frontTokens, backTokens⟩ := List.map_eq_append_iff.1 tokens
    obtain ⟨⟨_, column⟩, further, rfl, rfl, furtherTokens⟩ := List.map_eq_cons_iff.1 backTokens
    obtain ⟨below, rfl⟩ := Nat.exists_eq_add_of_le' othersNest
    have othersFound := ihOthers (Nat.le_add_left _ below) furtherTokens rest stops
    rw [levelFor, reader_chain, List.append_assoc]
    exact joined_both (ihFirst firstNests frontTokens _ (stops_connective _ _)) othersFound
  | negation operand ih =>
    obtain ⟨⟨_, column⟩, further, rfl, rfl, furtherTokens⟩ := List.map_eq_cons_iff.1 tokens
    obtain ⟨below, rfl⟩ := Nat.exists_eq_add_of_le' nests
    have inner := ih (Nat.le_add_left _ below) furtherTokens rest stops
    exact operand_negation endColumn column inner
  | primary inner ih => exact ih nests tokens rest stops
  | constant value =>
    obtain ⟨⟨_, column⟩, further, rfl, rfl, furtherTokens⟩ := List.map_eq_cons_iff.1 tokens
    obtain rfl := List.map_eq_nil_iff.1 furtherTokens
    rfl
  | name text =>
    obtain ⟨⟨_, column⟩, further, rfl, rfl, furtherTokens⟩ := List.map_eq_cons_iff.1 tokens
    obtain rfl := List.map_eq_nil_iff.1 furtherTokens
    rfl
  | parenthesised inner ih =>
    obtain ⟨⟨_, column⟩, further, rfl, rfl, furtherTokens⟩ := List.map_eq_cons_iff.1 tokens
    obtain ⟨front, back, rfl, frontTokens, backTokens⟩ := List.map_eq_append_iff.1 furtherTokens
    obtain ⟨⟨_, closing⟩, others, rfl, rfl, none⟩ := List.map_eq_cons_iff.1 backTokens
    obtain rfl := List.map_eq_nil_iff.1 none
    obtain ⟨below, rfl⟩ := Nat.exists_eq_add_of_le' nests
    have content := ih (Nat.le_add_left _ below) frontTokens (⟨.closeParen, closing⟩ :: rest)
      (stops_closeParen _ _)
    rw [List.cons_append, List.append_assoc]
    exact operand_parenthesised endColumn column content

/-! ## Reading a source -/

theorem derivation_tokens_ne_nil {phrase : Phrase} (derivation : Derivation phrase) :
    derivation.tokens ≠ [] := by
  induction derivation with
  | single _ ih | primary _ ih => exact ih
  | joined | negation | constant | name | parenthesised => simp [Derivation.tokens]

/-- A source is read when its lexemes are not empty and the outermost level reads all of them. -/
theorem parse_eq_ok {source : String} {formula : Formula} :
    parse source = .ok formula ↔ ∃ found, lexemes source = .ok found ∧ found ≠ [] ∧
      (levelFor (source.length + 1) 257).reader (.chain .or) found = .ok (formula, []) := by
  have level : (levelFor (source.length + 1) 257).reader (.chain .or) =
      (withDepth (source.length + 1) maxNesting).disjunction := by
    rw [maxNesting, withDepth_eq_levelFor]
    rfl
  rw [level]
  unfold parse ofLexemes
  cases lexemes source with
  | error cause => simp [bind, Except.bind]
  | ok found =>
    by_cases empty : found = []
    · simp [empty, bind, Except.bind, throw, throwThe, MonadExceptOf.throw]
    · simp only [bind, Except.bind, empty, if_false]
      simp only [Except.ok.injEq, exists_eq_left', ne_eq, empty, not_false_eq_true, true_and]
      rcases (withDepth (source.length + 1) maxNesting).disjunction found with
        cause | ⟨read, _ | ⟨next, rest⟩⟩ <;>
        simp [pure, Except.pure, throw, throwThe, MonadExceptOf.throw]

/-- Reading a source succeeds exactly if its tokens are derivable as a disjunction that nests at
most 256 levels, and then with the formula of the derivation. Tokens have at most one derivation. -/
theorem parse_eq_ok_iff (source : String) :
    (∀ formula, parse source = .ok formula ↔
      ∃ found, lexemes source = .ok found ∧ ∃ derivation : Derivation (.chain .or),
        derivation.tokens = found.map Lexeme.token ∧ derivation.formula = formula ∧
          derivation.nesting ≤ 256) ∧
    ∀ left right : Derivation (.chain .or), left.tokens = right.tokens → left = right := by
  refine ⟨fun formula => ⟨fun parsed => ?_, ?_⟩, fun left right => tokens_inj⟩
  · obtain ⟨found, split, notEmpty, readAll⟩ := parse_eq_ok.1 parsed
    obtain ⟨derivation, formulas, nests, consumed, tokens, same⟩ :=
      (sound_levelFor (source.length + 1) 257).2 .or found formula [] readAll
    rw [List.append_nil] at same
    exact ⟨found, split, derivation, same ▸ tokens.symm, formulas, Nat.le_of_lt_succ nests⟩
  · rintro ⟨found, split, derivation, tokens, rfl, nests⟩
    have readAll :=
      complete_levelFor (source.length + 1) derivation nests tokens.symm [] (stops_nil _)
    have notEmpty : found ≠ [] := by
      rintro rfl
      exact derivation_tokens_ne_nil derivation tokens
    rw [List.append_nil] at readAll
    exact parse_eq_ok.2 ⟨found, split, notEmpty, readAll⟩

/-- Of the connectives, the one that binds least comes out on top, and its chain nests to the right. -/
example : (parse "a || !b && (c ^^ true) || d").toOption =
    some (.binary .or (.condition "a") (.binary .or
      (.binary .and (.negation (.condition "b")) (.binary .xor (.condition "c") (.constant true)))
      (.condition "d"))) := by
  decide +kernel

end Formula

end ConfigTemplate
