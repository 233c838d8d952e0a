import ConfigTemplate.Proofs.Formula.Derivation
import ConfigTemplate.Proofs.Formula.Truth
import Mathlib.Data.List.Basic

/-!
# Chains folded from the left

The grammar of formulas can be read in another way, in which a chain is one operand and any number of
others behind it, each after the connective:

    disjunction := conjunction ("||" conjunction)*
    conjunction := exclusive ("&&" exclusive)*
    exclusive   := unary ("^^" unary)*

A `Reading` is a derivation by that grammar. It has no formula; it is evaluated as it stands, and every
chain is folded from the left. Formulas nest chains to the right instead, which makes no difference,
because the connectives are associative and the operands come in the same order.

Results:
1. `Derivation.derivation_reading` and `Reading.reading_derivation`: readings and derivations of the
   same tokens correspond.
2. `Reading.evaluate_derivation`: a formula evaluates as its reading does, for every lawful monad.
3. `evaluate_folds`: so it is for each source that can be read, with values of conditions that are
   given by any function.
-/

namespace ConfigTemplate

/-- Values of conditions that are given by a function, which knows only some of them. -/
def resolver (value : String → Option Bool) (name : String) : Except EvalError Bool :=
  match value name with
  | some truth => .ok truth
  | none => .error (.unknownCondition name)

theorem NameMap.resolve_eq_resolver (values : NameMap Bool) :
    values.resolve = resolver values.get? := rfl

namespace Formula

/-! ## Readings -/

mutual

/-- The derivations of a phrase when a chain is an operand with others behind it. -/
inductive Reading : Phrase → Type where
  | chain {connective : Connective} (first : Reading (.operandOf connective))
      (others : Others connective) : Reading (.chain connective)
  | negation (operand : Reading .unary) : Reading .unary
  | primary (inner : Reading .primary) : Reading .unary
  | constant (value : Bool) : Reading .primary
  | name (text : String) : Reading .primary
  | parenthesised (inner : Reading (.chain .or)) : Reading .primary

/-- The operands of a chain behind its first one. -/
inductive Others : Connective → Type where
  | none {connective : Connective} : Others connective
  | more {connective : Connective} (next : Reading (.operandOf connective))
      (others : Others connective) : Others connective

end

mutual

/-- The tokens that are read. -/
def Reading.tokens {phrase : Phrase} : Reading phrase → List Token
  | .chain first others => first.tokens ++ others.tokens
  | .negation operand => .negation :: operand.tokens
  | .primary inner => inner.tokens
  | .constant value => [.constant value]
  | .name text => [.name text]
  | .parenthesised inner => .openParen :: (inner.tokens ++ [.closeParen])

def Others.tokens {connective : Connective} : Others connective → List Token
  | .none => []
  | .more next others => .connective connective :: (next.tokens ++ others.tokens)

end

section Evaluation

variable {m : Type → Type} [Monad m]

mutual

/-- The value of what is read, for given values of its conditions. -/
def Reading.evaluate (value : String → m Bool) {phrase : Phrase} : Reading phrase → m Bool
  | .chain first others => do
    let truth ← first.evaluate value
    others.fold value truth
  | .negation operand => return !(← operand.evaluate value)
  | .primary inner => inner.evaluate value
  | .constant truth => pure truth
  | .name text => value text
  | .parenthesised inner => inner.evaluate value

/-- Joins the operands to the value of what stands before them, one after the other. -/
def Others.fold (value : String → m Bool) (before : Bool) {connective : Connective} :
    Others connective → m Bool
  | .none => pure before
  | .more next others => do
    let truth ← next.evaluate value
    others.fold value (connective.truth before truth)

end

end Evaluation

/-! ## Readings and derivations -/

mutual

/-- The derivation of the same tokens in which chains nest to the right. -/
def Reading.derivation {phrase : Phrase} : Reading phrase → Derivation phrase
  | .chain first others => others.nest first.derivation
  | .negation operand => .negation operand.derivation
  | .primary inner => .primary inner.derivation
  | .constant value => .constant value
  | .name text => .name text
  | .parenthesised inner => .parenthesised inner.derivation

/-- The chain that nests to the right, with the given operand in front. -/
def Others.nest {connective : Connective} (first : Derivation (.operandOf connective)) :
    Others connective → Derivation (.chain connective)
  | .none => .single first
  | .more next others => .joined first (others.nest next.derivation)

end

/-- The chain with one operand more in front. -/
def Reading.followedBy {connective : Connective} (first : Reading (.operandOf connective)) :
    Reading (.chain connective) → Reading (.chain connective)
  | .chain next others => .chain first (.more next others)

/-- The reading of the same tokens in which chains are flat. -/
def Derivation.reading {phrase : Phrase} : Derivation phrase → Reading phrase
  | .single only => .chain only.reading .none
  | .joined first others => first.reading.followedBy others.reading
  | .negation operand => .negation operand.reading
  | .primary inner => .primary inner.reading
  | .constant value => .constant value
  | .name text => .name text
  | .parenthesised inner => .parenthesised inner.reading


theorem tokens_followedBy {connective : Connective} (first : Reading (.operandOf connective))
    (chain : Reading (.chain connective)) :
    (first.followedBy chain).tokens = first.tokens ++ .connective connective :: chain.tokens := by
  cases chain
  simp [Reading.followedBy, Reading.tokens, Others.tokens]

theorem derivation_followedBy {connective : Connective} (first : Reading (.operandOf connective))
    (chain : Reading (.chain connective)) :
    (first.followedBy chain).derivation = .joined first.derivation chain.derivation := by
  cases chain
  rfl

/-- A chain that nests to the right has the operands of its flat reading. -/
theorem Derivation.tokens_reading {phrase : Phrase} (derivation : Derivation phrase) :
    derivation.reading.tokens = derivation.tokens := by
  induction derivation with
  | single only ih => simpa [reading, Reading.tokens, Others.tokens, tokens] using ih
  | joined first others ihFirst ihOthers => rw [reading, tokens_followedBy, ihFirst, ihOthers, tokens]
  | negation operand ih => rw [reading, Reading.tokens, ih, tokens]
  | primary inner ih => rw [reading, Reading.tokens, ih, tokens]
  | constant value => rfl
  | name text => rfl
  | parenthesised inner ih => rw [reading, Reading.tokens, ih, tokens]

theorem Derivation.derivation_reading {phrase : Phrase} (derivation : Derivation phrase) :
    derivation.reading.derivation = derivation := by
  induction derivation with
  | single only ih => rw [reading, Reading.derivation, Others.nest, ih]
  | joined first others ihFirst ihOthers => rw [reading, derivation_followedBy, ihFirst, ihOthers]
  | negation operand ih => rw [reading, Reading.derivation, ih]
  | primary inner ih => rw [reading, Reading.derivation, ih]
  | constant value => rfl
  | name text => rfl
  | parenthesised inner ih => rw [reading, Reading.derivation, ih]

mutual

theorem Reading.reading_derivation {phrase : Phrase} (reading : Reading phrase) :
    reading.derivation.reading = reading := by
  cases reading with
  | chain first others =>
    rw [Reading.derivation, others.reading_nest, first.reading_derivation]
  | negation operand => rw [Reading.derivation, Derivation.reading, operand.reading_derivation]
  | primary inner => rw [Reading.derivation, Derivation.reading, inner.reading_derivation]
  | constant value => rfl
  | name text => rfl
  | parenthesised inner => rw [Reading.derivation, Derivation.reading, inner.reading_derivation]

theorem Others.reading_nest {connective : Connective} (others : Others connective)
    (first : Derivation (.operandOf connective)) :
    (others.nest first).reading = .chain first.reading others := by
  cases others with
  | none => rfl
  | more next others =>
    rw [Others.nest, Derivation.reading, others.reading_nest, next.reading_derivation]
    rfl

end

/-- A list of tokens has at most one reading as a given phrase. -/
theorem Reading.tokens_inj {phrase : Phrase} {left right : Reading phrase}
    (same : left.tokens = right.tokens) : left = right := by
  have tokens : ∀ reading : Reading phrase, reading.derivation.tokens = reading.tokens := by
    intro reading
    rw [← Derivation.tokens_reading, reading.reading_derivation]
  have derivations : left.derivation = right.derivation :=
    Formula.tokens_inj (by rw [tokens, tokens, same])
  rw [← left.reading_derivation, derivations, right.reading_derivation]

/-! ## Evaluation -/

section Evaluation

variable {m : Type → Type} [Monad m]

/-- What stands in front of a fold can as well be joined to its result, for connectives are
associative. -/
theorem Others.fold_truth [LawfulMonad m] (value : String → m Bool) (before truth : Bool)
    {connective : Connective} :
    (others : Others connective) → others.fold value (connective.truth before truth) =
      (do return connective.truth before (← others.fold value truth))
  | .none => by simp [fold]
  | .more next others => by
    simp only [fold, bind_assoc]
    refine bind_congr fun second => ?_
    rw [Connective.truth_assoc]
    exact others.fold_truth value before (connective.truth truth second)

mutual

/-- The formula of a reading has the value of the reading, with the same effects in the same order. -/
theorem Reading.evaluate_derivation [LawfulMonad m] (value : String → m Bool) {phrase : Phrase}
    (reading : Reading phrase) :
    reading.derivation.formula.evaluate value = reading.evaluate value := by
  cases reading with
  | chain first others =>
    rw [Reading.derivation, others.evaluate_nest, first.evaluate_derivation, Reading.evaluate]
  | negation operand =>
    rw [Reading.derivation, Derivation.formula, Formula.evaluate, operand.evaluate_derivation,
      Reading.evaluate]
  | primary inner =>
    rw [Reading.derivation, Derivation.formula, inner.evaluate_derivation, Reading.evaluate]
  | constant truth => rfl
  | name text => rfl
  | parenthesised inner =>
    rw [Reading.derivation, Derivation.formula, inner.evaluate_derivation, Reading.evaluate]

/-- A chain that nests to the right has the value of its first operand with the others folded in. -/
theorem Others.evaluate_nest [LawfulMonad m] (value : String → m Bool) {connective : Connective}
    (others : Others connective) (first : Derivation (.operandOf connective)) :
    (others.nest first).formula.evaluate value =
      (do others.fold value (← first.formula.evaluate value)) := by
  cases others with
  | none => simp [Others.nest, Derivation.formula, Others.fold]
  | more next others =>
    rw [Others.nest, Derivation.formula, Formula.evaluate]
    refine bind_congr fun before => ?_
    rw [others.evaluate_nest, next.evaluate_derivation, Others.fold, bind_assoc]
    refine bind_congr fun truth => ?_
    simp only [Connective.apply_eq_truth]
    exact (others.fold_truth value before truth).symm

end

end Evaluation

/-- If a source can be read, then its tokens have exactly one reading in which chains are flat, and the
formula has the value of this reading, folded from the left, or fails at the same unknown name. -/
theorem evaluate_folds {source : String} {formula : Formula} (parsed : parse source = .ok formula) :
    ∃ found, lexemes source = .ok found ∧ ∃ reading : Reading (.chain .or),
      reading.tokens = found.map Lexeme.token ∧
        (∀ other : Reading (.chain .or), other.tokens = found.map Lexeme.token → other = reading) ∧
        ∀ value : String → Option Bool,
          formula.evaluate (resolver value) = reading.evaluate (resolver value) := by
  obtain ⟨found, split, -, readAll⟩ := parse_eq_ok.1 parsed
  obtain ⟨derivation, rfl, -, consumed, tokens, same⟩ :=
    (sound_levelFor (source.length + 1) 257).2 .or found formula [] readAll
  rw [List.append_nil] at same
  subst same
  refine ⟨found, split, derivation.reading, ?_, fun other same => ?_, fun value => ?_⟩
  · rw [derivation.tokens_reading, tokens]
  · exact Reading.tokens_inj (by rw [same, derivation.tokens_reading, tokens])
  · rw [← Reading.evaluate_derivation, derivation.derivation_reading]

/-- The formula of `a ^^ b ^^ true && !a || c || d`, which nests its chains to the right. -/
def exChains : Formula :=
  .binary .or
    (.binary .and (.binary .xor (.condition "a") (.binary .xor (.condition "b") (.constant true)))
      (.negation (.condition "a")))
    (.binary .or (.condition "c") (.condition "d"))

/-- The flat reading finds the same values, whichever operand decides a chain, and fails at the same one
of two unknown names. In the first line the disjunction is true by its first operand; in the second by
none, since the left operand of the conjunction is false; in the next two by the second operand and by
the third. -/
theorem exChains_folds :
    parse "a ^^ b ^^ true && !a || c || d" = .ok exChains ∧
      ∃ found, lexemes "a ^^ b ^^ true && !a || c || d" = .ok found ∧
        ∃ reading : Reading (.chain .or), reading.tokens = found.map Lexeme.token ∧
          reading.evaluate (resolver fun _ => some false) = .ok true ∧
          reading.evaluate (resolver fun name => some (name == "b")) = .ok false ∧
          reading.evaluate (resolver fun name => some (name == "b" || name == "c")) = .ok true ∧
          reading.evaluate (resolver fun name => some (name == "b" || name == "d")) = .ok true ∧
          reading.evaluate (resolver fun name => some (name == "d")) = .ok true ∧
          reading.evaluate (NameMap.ofList [("a", true), ("b", true)]).resolve =
            .error (.unknownCondition "c") := by
  have parsed : parse "a ^^ b ^^ true && !a || c || d" = .ok exChains := by decide +kernel
  obtain ⟨found, split, reading, tokens, -, same⟩ := evaluate_folds parsed
  refine ⟨parsed, found, split, reading, tokens, ?_, ?_, ?_, ?_, ?_, ?_⟩
  · exact (same fun _ => some false).symm
  · exact (same fun name => some (name == "b")).symm
  · exact (same fun name => some (name == "b" || name == "c")).symm
  · exact (same fun name => some (name == "b" || name == "d")).symm
  · exact (same fun name => some (name == "d")).symm
  · rw [NameMap.resolve_eq_resolver, ← same]
    rfl

end Formula

end ConfigTemplate
