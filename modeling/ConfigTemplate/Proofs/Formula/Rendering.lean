import ConfigTemplate.Proofs.Formula.Derivation
import ConfigTemplate.Proofs.Formula.Spelling

/-!
# Reading what is rendered

A formula is rendered with a pair of parentheses for each connective, so its text has a derivation that
follows the formula: every operand is a unary phrase. It nests two levels for a right operand and one
for every other operand, and a text that nests more levels than are allowed cannot be read.

Results:
1. `writes_render`: the text of a formula is written with the tokens of its derivation.
2. `refuses_levelFor`: the readers of a level refuse the derivations that nest more than the level
   allows.
3. `parse_rendered`: the text of a formula is read as this formula, unless it nests more than 256
   levels; then it is refused for that.
-/

namespace ConfigTemplate.Formula

/-! ## The derivation of a text -/

/-- The levels that the text of a formula nests. -/
def nesting : Formula → Nat
  | .constant _ | .condition _ => 0
  | .negation operand => 1 + operand.nesting
  | .binary _ left right => max (1 + left.nesting) (2 + right.nesting)

namespace Derivation

/-- A unary phrase as the operand of a connective. -/
def asOperand (unary : Derivation .unary) :
    (connective : Connective) → Derivation (.operandOf connective)
  | .xor => unary
  | .and => .single unary
  | .or => .single (.single unary)

/-- A chain as a disjunction. -/
def asDisjunction : {connective : Connective} → Derivation (.chain connective) → Derivation (.chain .or)
  | .or, chain => chain
  | .and, chain => .single chain
  | .xor, chain => .single (.single chain)

variable (unary : Derivation .unary) {connective : Connective} (chain : Derivation (.chain connective))

theorem tokens_asOperand : (unary.asOperand connective).tokens = unary.tokens := by
  cases connective <;> rfl

theorem formula_asOperand : (unary.asOperand connective).formula = unary.formula := by
  cases connective <;> rfl

theorem nesting_asOperand : (unary.asOperand connective).nesting = unary.nesting := by
  cases connective <;> rfl

theorem tokens_asDisjunction : chain.asDisjunction.tokens = chain.tokens := by
  cases connective <;> rfl

theorem formula_asDisjunction : chain.asDisjunction.formula = chain.formula := by
  cases connective <;> rfl

theorem nesting_asDisjunction : chain.asDisjunction.nesting = chain.nesting := by
  cases connective <;> rfl

/-- Two operands, in parentheses. -/
def binary (connective : Connective) (left right : Derivation .unary) : Derivation .unary :=
  .primary (.parenthesised
    (asDisjunction (.joined (left.asOperand connective) (.single (right.asOperand connective)))))

end Derivation

/-- The derivation of the text of a formula. -/
def derivation : Formula → Derivation .unary
  | .constant value => .primary (.constant value)
  | .condition name => .primary (.name name)
  | .negation operand => .negation operand.derivation
  | .binary connective left right => .binary connective left.derivation right.derivation

theorem formula_derivation (formula : Formula) : formula.derivation.formula = formula := by
  induction formula with
  | constant value => rfl
  | condition name => rfl
  | negation operand ih => rw [derivation, Derivation.formula, ih]
  | binary connective left right ihLeft ihRight =>
    simp only [derivation, Derivation.binary, Derivation.formula, Derivation.formula_asDisjunction,
      Derivation.formula_asOperand, ihLeft, ihRight]

theorem nesting_derivation (formula : Formula) : formula.derivation.nesting = formula.nesting := by
  induction formula with
  | constant value => rfl
  | condition name => rfl
  | negation operand ih => rw [derivation, Derivation.nesting, ih, nesting, Nat.add_comm]
  | binary connective left right ihLeft ihRight =>
    simp only [derivation, Derivation.binary, Derivation.nesting, Derivation.nesting_asDisjunction,
      Derivation.nesting_asOperand, ihLeft, ihRight, nesting]
    omega

/-! ## The characters of a text -/

/-- The text of a formula is written with the tokens of its derivation. -/
theorem writes_render {formula : Formula} (names : ∀ name ∈ formula.conditions, IsIdentifier name) :
    Writes formula.render.toList formula.derivation.tokens := by
  induction formula with
  | constant value =>
    have text : (Formula.constant value).render = (Token.constant value).spelling := rfl
    rw [text]
    exact .token fun name same => nomatch same
  | condition name =>
    have text : (Formula.condition name).render = (Token.name name).spelling := rfl
    rw [text]
    refine .token fun other same => ?_
    cases same
    exact names _ List.mem_cons_self
  | negation operand ih =>
    have text : (Formula.negation operand).render.toList =
        Token.negation.spelling.toList ++ operand.render.toList := by
      rw [render, String.toList_append]
      rfl
    rw [text]
    exact .symbol rfl (ih names)
  | binary connective left right ihLeft ihRight =>
    have leftWrites := ihLeft fun name member => names name (List.mem_append_left _ member)
    have rightWrites := ihRight fun name member => names name (List.mem_append_right _ member)
    have text : (Formula.binary connective left right).render.toList =
        Token.openParen.spelling.toList ++ (left.render.toList ++ ' ' ::
          ((Token.connective connective).spelling.toList ++ ' ' ::
            (right.render.toList ++ [')']))) := by
      simp only [render, String.toList_append, List.append_assoc]
      rfl
    have tokens : (Formula.binary connective left right).derivation.tokens =
        .openParen :: (left.derivation.tokens ++ (.connective connective ::
          (right.derivation.tokens ++ [.closeParen]))) := by
      simp [derivation, Derivation.binary, Derivation.tokens, Derivation.tokens_asDisjunction,
        Derivation.tokens_asOperand]
    have closing : Writes [')'] [.closeParen] := @Writes.symbol [] [] .closeParen rfl .nil
    have second : Writes (right.render.toList ++ [')']) (right.derivation.tokens ++ [.closeParen]) :=
      rightWrites.append closing (by decide)
    have behind : Writes ((Token.connective connective).spelling.toList ++
        ' ' :: (right.render.toList ++ [')']))
          (.connective connective :: (right.derivation.tokens ++ [.closeParen])) :=
      .symbol rfl (.blank rfl second)
    rw [text, tokens]
    exact .symbol rfl (leftWrites.append (.blank rfl behind) (by decide))

/-! ## Texts that nest too deeply -/

open Level

theorem joined_error_left {connective : Connective} {left right : Reader} {lexemes : List Lexeme}
    {cause : ParseError} (fails : left lexemes = .error cause) :
    joined connective left right lexemes = .error cause := by
  simp [joined, fails, bind, Except.bind]

theorem joined_error_right {connective : Connective} {left right : Reader}
    {lexemes after : List Lexeme} {first : Formula} {column : Nat} {cause : ParseError}
    (found : left lexemes = .ok (first, ⟨.connective connective, column⟩ :: after))
    (fails : right after = .error cause) :
    joined connective left right lexemes = .error cause := by
  simp [joined, found, fails, bind, Except.bind]

theorem operand_negation_error (endColumn column : Nat) {deeper : Level} {after : List Lexeme}
    {cause : ParseError} (fails : deeper.unary after = .error cause) :
    operand endColumn deeper (⟨.negation, column⟩ :: after) = .error cause := by
  simp [operand, fails, bind, Except.bind]

theorem operand_parenthesised_error (endColumn column : Nat) {deeper : Level} {after : List Lexeme}
    {cause : ParseError} (fails : deeper.disjunction after = .error cause) :
    operand endColumn deeper (⟨.openParen, column⟩ :: after) = .error cause := by
  simp [operand, parenthesised, fails, bind, Except.bind]

/-- The reader of a level refuses every derivation that nests more than the level allows, whatever
follows it. -/
theorem refuses_levelFor (endColumn : Nat) {phrase : Phrase} (derivation : Derivation phrase)
    {bound : Nat} (nests : bound ≤ derivation.nesting) {consumed : List Lexeme}
    (tokens : consumed.map Lexeme.token = derivation.tokens) (rest : List Lexeme) :
    ∃ column, (levelFor endColumn bound).reader phrase (consumed ++ rest) =
      .error (.malformed column .nestedTooDeeply) := by
  induction derivation generalizing bound consumed rest with
  | @single connective only ih =>
    cases bound with
    | zero => exact ⟨_, reader_tooDeep endColumn _ _⟩
    | succ bound =>
      obtain ⟨column, fails⟩ := ih nests tokens rest
      rw [levelFor, reader_chain]
      exact ⟨column, joined_error_left fails⟩
  | @joined connective first others ihFirst ihOthers =>
    cases bound with
    | zero => exact ⟨_, reader_tooDeep endColumn _ _⟩
    | succ bound =>
      obtain ⟨front, back, rfl, frontTokens, backTokens⟩ := List.map_eq_append_iff.1 tokens
      rw [levelFor, reader_chain, List.append_assoc]
      rcases Nat.lt_or_ge bound first.nesting with deep | shallow
      · obtain ⟨column, fails⟩ := ihFirst deep frontTokens (back ++ rest)
        exact ⟨column, joined_error_left fails⟩
      · have othersNest : bound ≤ others.nesting := by
          rw [Derivation.nesting] at nests
          omega
        obtain ⟨⟨_, connectiveColumn⟩, further, rfl, rfl, furtherTokens⟩ :=
          List.map_eq_cons_iff.1 backTokens
        obtain ⟨column, fails⟩ := ihOthers othersNest furtherTokens rest
        have found := complete_levelFor endColumn first shallow frontTokens
          (⟨.connective connective, connectiveColumn⟩ :: (further ++ rest)) (stops_connective _ _)
        exact ⟨column, joined_error_right found fails⟩
  | negation operand ih =>
    cases bound with
    | zero => exact ⟨_, reader_tooDeep endColumn _ _⟩
    | succ bound =>
      obtain ⟨⟨_, negationColumn⟩, further, rfl, rfl, furtherTokens⟩ := List.map_eq_cons_iff.1 tokens
      obtain ⟨column, fails⟩ := ih (Nat.le_of_succ_le_succ nests) furtherTokens rest
      exact ⟨column, operand_negation_error endColumn negationColumn fails⟩
  | primary inner ih => exact ih nests tokens rest
  | constant value =>
    obtain rfl : bound = 0 := Nat.le_zero.1 nests
    exact ⟨_, reader_tooDeep endColumn _ _⟩
  | name text =>
    obtain rfl : bound = 0 := Nat.le_zero.1 nests
    exact ⟨_, reader_tooDeep endColumn _ _⟩
  | parenthesised inner ih =>
    cases bound with
    | zero => exact ⟨_, reader_tooDeep endColumn _ _⟩
    | succ bound =>
      obtain ⟨⟨_, openColumn⟩, further, rfl, rfl, furtherTokens⟩ := List.map_eq_cons_iff.1 tokens
      obtain ⟨front, back, rfl, frontTokens, backTokens⟩ := List.map_eq_append_iff.1 furtherTokens
      obtain ⟨column, fails⟩ := ih (Nat.le_of_succ_le_succ nests) frontTokens (back ++ rest)
      rw [List.cons_append, List.append_assoc]
      exact ⟨column, operand_parenthesised_error endColumn openColumn fails⟩

/-! ## Reading a text -/

/-- Reading fails where the outermost level does. -/
theorem parse_eq_error {source : String} {found : List Lexeme} {cause : ParseError}
    (split : lexemes source = .ok found) (some_ : found ≠ [])
    (fails : (levelFor (source.length + 1) 257).reader (.chain .or) found = .error cause) :
    parse source = .error cause := by
  have level : (withDepth (source.length + 1) maxNesting).disjunction found = .error cause := by
    rw [maxNesting, withDepth_eq_levelFor]
    exact fails
  simp [parse, ofLexemes, split, some_, level, bind, Except.bind]

/-- The text of a formula is read as this formula if it nests at most 256 levels, and is refused as
nested too deeply otherwise. -/
theorem parse_rendered {formula : Formula}
    (names : ∀ name ∈ formula.conditions, IsIdentifier name) :
    (formula.nesting ≤ 256 → parse formula.render = .ok formula) ∧
    (256 < formula.nesting → ∃ column fault,
      parse formula.render = .error (.malformed column fault) ∧
        fault.message = "expression nested too deeply") := by
  let whole : Derivation (.chain .or) := .single (formula.derivation.asOperand .or)
  have nesting : whole.nesting = formula.nesting :=
    (Derivation.nesting_asOperand _).trans (nesting_derivation formula)
  have formulas : whole.formula = formula :=
    (Derivation.formula_asOperand _).trans (formula_derivation formula)
  obtain ⟨found, split, tokens⟩ := (writes_render names).lexemes
  have written : found.map Lexeme.token = whole.tokens :=
    tokens.trans (Derivation.tokens_asOperand _).symm
  have some_ : found ≠ [] := by
    rintro rfl
    exact derivation_tokens_ne_nil whole written.symm
  constructor
  · intro nests
    have readAll := complete_levelFor (formula.render.length + 1) whole
      (Nat.le_trans (Nat.le_of_eq nesting) nests) written [] (stops_nil _)
    rw [List.append_nil, formulas] at readAll
    exact parse_eq_ok.2 ⟨found, split, some_, readAll⟩
  · intro deep
    obtain ⟨column, fails⟩ := refuses_levelFor (formula.render.length + 1) whole
      (Nat.le_trans deep (Nat.le_of_eq nesting.symm)) written []
    rw [List.append_nil] at fails
    exact ⟨column, .nestedTooDeeply, parse_eq_error split some_ fails, rfl⟩

/-- A conjunction that nests two more levels for every operand. -/
def exConjunction : Nat → Formula
  | 0 => .condition "a"
  | count + 1 => .binary .and (.condition "a") (exConjunction count)

theorem exConjunction_nesting (count : Nat) : (exConjunction count).nesting = 2 * count := by
  induction count with
  | zero => rfl
  | succ count ih =>
    rw [exConjunction, nesting, nesting, ih]
    omega

theorem exConjunction_isIdentifier (count : Nat) :
    ∀ name ∈ (exConjunction count).conditions, IsIdentifier name := by
  have identifier : IsIdentifier "a" := ⟨⟨'a', [], rfl, rfl, nofun⟩, by decide, by decide⟩
  induction count with
  | zero => simpa [exConjunction, conditions] using identifier
  | succ count ih => simpa [exConjunction, conditions, identifier] using ih

/-- 128 connectives can be nested in this way, and 129 cannot. -/
theorem exConjunction_rendered :
    parse (exConjunction 128).render = .ok (exConjunction 128) ∧
    ∃ column fault, parse (exConjunction 129).render = .error (.malformed column fault) ∧
      fault.message = "expression nested too deeply" :=
  ⟨(parse_rendered (exConjunction_isIdentifier 128)).1 (by simp [exConjunction_nesting]),
    (parse_rendered (exConjunction_isIdentifier 129)).2 (by simp [exConjunction_nesting])⟩

end ConfigTemplate.Formula
