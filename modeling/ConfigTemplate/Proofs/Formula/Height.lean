import ConfigTemplate.Formula.Evaluation
import ConfigTemplate.Proofs.Formula.Derivation
import ConfigTemplate.Proofs.Formula.Spelling
import Mathlib.Order.Bounds.Basic

/-!
# The height of formulas

Rendering a formula, evaluating it and listing its conditions are recursions without a limit of their
own. They nest as many calls as there are formulas on the longest way down to a constant or condition.
For a formula that has been read this is bounded by the levels that it nests, although left operands
stand on the level of what encloses them: chains of three strengths can begin with each other, and then
only parentheses lead on, to the next level.

Results:
1. `isGreatest_height`: the height of a formula is the length of the longest ways down.
2. `Recursion.runWithin_eq`: a recursion nests as many calls as the formula is high.
3. `Derivation.height_le`: the height of what is derived, by its nesting.
4. `parse_shallow`: so recursions over a formula that has been read nest at most 770 calls.
-/

namespace ConfigTemplate

theorem Connective.strength_le (connective : Connective) : connective.strength ≤ 2 := by
  cases connective <;> decide

namespace Formula

/-! ## Height -/

/-- A way from a formula down to a constant or condition, with the formulas on it. -/
inductive Descent : Formula → List Formula → Prop
  | constant (value : Bool) : Descent (.constant value) [.constant value]
  | condition (name : String) : Descent (.condition name) [.condition name]
  | negation {operand : Formula} {formulas : List Formula} (below : Descent operand formulas) :
      Descent (.negation operand) (.negation operand :: formulas)
  | left {connective : Connective} {left right : Formula} {formulas : List Formula}
      (below : Descent left formulas) :
      Descent (.binary connective left right) (.binary connective left right :: formulas)
  | right {connective : Connective} {left right : Formula} {formulas : List Formula}
      (below : Descent right formulas) :
      Descent (.binary connective left right) (.binary connective left right :: formulas)

/-- The number of formulas on a longest way down. -/
def height : Formula → Nat
  | .constant _ | .condition _ => 1
  | .negation operand => operand.height + 1
  | .binary _ left right => max left.height right.height + 1

theorem Descent.length_le_height {formula : Formula} {formulas : List Formula}
    (descent : Descent formula formulas) : formulas.length ≤ formula.height := by
  induction descent with
  | constant | condition => exact Nat.le_refl _
  | negation _ ih => exact Nat.succ_le_succ ih
  | left _ ih => exact Nat.succ_le_succ (Nat.le_trans ih (Nat.le_max_left _ _))
  | right _ ih => exact Nat.succ_le_succ (Nat.le_trans ih (Nat.le_max_right _ _))

theorem exists_descent (formula : Formula) :
    ∃ formulas, Descent formula formulas ∧ formulas.length = formula.height := by
  induction formula with
  | constant value => exact ⟨_, .constant value, rfl⟩
  | condition name => exact ⟨_, .condition name, rfl⟩
  | negation operand ih =>
    obtain ⟨formulas, descent, length⟩ := ih
    exact ⟨_, .negation descent, congrArg (· + 1) length⟩
  | binary connective left right ihLeft ihRight =>
    obtain ⟨lefts, descentLeft, lengthLeft⟩ := ihLeft
    obtain ⟨rights, descentRight, lengthRight⟩ := ihRight
    rcases Nat.le_total left.height right.height with lower | higher
    · refine ⟨_, .right descentRight, ?_⟩
      rw [List.length_cons, lengthRight, height, Nat.max_eq_right lower]
    · refine ⟨_, .left descentLeft, ?_⟩
      rw [List.length_cons, lengthLeft, height, Nat.max_eq_left higher]

theorem isGreatest_height (formula : Formula) :
    IsGreatest {count | ∃ formulas, Descent formula formulas ∧ formulas.length = count}
      formula.height := by
  refine ⟨exists_descent formula, ?_⟩
  rintro _ ⟨formulas, descent, rfl⟩
  exact descent.length_le_height

/-! ## Recursions -/

/-- What a recursion over formulas makes of each kind of formula and the results below it. -/
structure Recursion (α : Type) where
  constant : Bool → α
  condition : String → α
  negation : α → α
  binary : Connective → α → α → α

namespace Recursion

variable {α : Type}

def run (recursion : Recursion α) : Formula → α
  | .constant value => recursion.constant value
  | .condition name => recursion.condition name
  | .negation operand => recursion.negation (recursion.run operand)
  | .binary connective left right =>
    recursion.binary connective (recursion.run left) (recursion.run right)

/-- The recursion with room for the given number of nested calls; there is no result when it runs
out. -/
def runWithin (recursion : Recursion α) : Nat → Formula → Option α
  | 0, _ => none
  | _ + 1, .constant value => some (recursion.constant value)
  | _ + 1, .condition name => some (recursion.condition name)
  | room + 1, .negation operand => do
    let inner ← recursion.runWithin room operand
    return recursion.negation inner
  | room + 1, .binary connective left right => do
    let first ← recursion.runWithin room left
    let second ← recursion.runWithin room right
    return recursion.binary connective first second

/-- A recursion nests as many calls as the formula is high. -/
theorem runWithin_eq (recursion : Recursion α) (room : Nat) (formula : Formula) :
    recursion.runWithin room formula =
      if formula.height ≤ room then some (recursion.run formula) else none := by
  induction formula generalizing room with
  | constant | condition => cases room <;> simp [runWithin, run, height]
  | negation operand ih =>
    cases room with
    | zero => simp [runWithin, height]
    | succ room => by_cases fits : operand.height ≤ room <;> simp [runWithin, run, height, ih, fits]
  | binary connective left right ihLeft ihRight =>
    cases room with
    | zero => simp [runWithin, height]
    | succ room =>
      by_cases leftFits : left.height ≤ room <;> by_cases rightFits : right.height ≤ room <;>
        simp [runWithin, run, height, ihLeft, ihRight, leftFits, rightFits]

/-- A function is what a recursion computes if it follows the recursion for each kind of formula. -/
theorem run_eq (recursion : Recursion α) {function : Formula → α}
    (constant : ∀ value, function (.constant value) = recursion.constant value)
    (condition : ∀ name, function (.condition name) = recursion.condition name)
    (negation : ∀ operand, function (.negation operand) = recursion.negation (function operand))
    (binary : ∀ connective left right, function (.binary connective left right) =
      recursion.binary connective (function left) (function right)) (formula : Formula) :
    recursion.run formula = function formula := by
  induction formula with
  | constant value => exact (constant value).symm
  | condition name => exact (condition name).symm
  | negation operand ih => rw [run, ih, negation]
  | binary connective left right ihLeft ihRight => rw [run, ihLeft, ihRight, binary]

end Recursion

/-- The recursion that renders a formula. -/
def rendering : Recursion String where
  constant value := if value then "true" else "false"
  condition name := name
  negation operand := "!" ++ operand
  binary connective left right := "(" ++ left ++ " " ++ connective.symbol ++ " " ++ right ++ ")"

/-- The recursion that lists the conditions of a formula. -/
def listing : Recursion (List String) where
  constant _ := []
  condition name := [name]
  negation operand := operand
  binary _ left right := left ++ right

/-- The recursion that evaluates a formula. -/
def evaluating {m : Type → Type} [Monad m] (value : String → m Bool) : Recursion (m Bool) where
  constant truth := pure truth
  condition name := value name
  negation operand := return !(← operand)
  binary connective left right := do
    let first ← left
    let second ← right
    return connective.apply first second

theorem run_rendering (formula : Formula) : rendering.run formula = formula.render :=
  rendering.run_eq (fun _ => rfl) (fun _ => rfl) (fun _ => rfl) (fun _ _ _ => rfl) formula

theorem run_listing (formula : Formula) : listing.run formula = formula.conditions :=
  listing.run_eq (fun _ => rfl) (fun _ => rfl) (fun _ => rfl) (fun _ _ _ => rfl) formula

theorem run_evaluating {m : Type → Type} [Monad m] (value : String → m Bool) (formula : Formula) :
    (evaluating value).run formula = formula.evaluate value :=
  (evaluating value).run_eq (fun _ => rfl) (fun _ => rfl) (fun _ => rfl) (fun _ _ _ => rfl) formula

/-! ## The height of what is derived -/

/-- Each level adds three formulas at most to the height, fewer the more tightly the phrase binds.
Without any level the phrase is a single constant or condition. -/
theorem Derivation.height_le {phrase : Phrase} (derivation : Derivation phrase) :
    derivation.formula.height = 1 ∨
      derivation.formula.height + phrase.strength ≤ 3 * derivation.nesting + 2 := by
  induction derivation with
  | @single connective only ih =>
    rw [strength_operandOf] at ih
    exact ih.imp_right fun bounded => Nat.le_trans (Nat.le_succ _) bounded
  | @joined connective first others ihFirst ihOthers =>
    rw [strength_operandOf] at ihFirst
    have weak := connective.strength_le
    simp only [formula, nesting, height, Phrase.strength] at ihOthers ⊢
    omega
  | negation operand ih =>
    simp only [formula, nesting, height, Phrase.strength] at ih ⊢
    omega
  | primary inner ih => exact ih
  | constant | name => exact .inl rfl
  | parenthesised inner ih =>
    simp only [formula, nesting, Phrase.strength] at ih ⊢
    omega

/-- If a source can be read, then all ways down its formula have 770 formulas at most, and with room for
as many nested calls every recursion over the formula ends with its result. Rendering the formula,
listing its conditions and evaluating it are such recursions. -/
theorem parse_shallow {source : String} {formula : Formula} (parsed : parse source = .ok formula) :
    (∀ formulas, Descent formula formulas → formulas.length ≤ 3 * maxNesting + 2) ∧
    3 * maxNesting + 2 = 770 ∧
    (∀ (α : Type) (recursion : Recursion α),
      recursion.runWithin 770 formula = some (recursion.run formula)) ∧
    rendering.run formula = formula.render ∧ listing.run formula = formula.conditions ∧
    ∀ (m : Type → Type) [Monad m] (value : String → m Bool),
      (evaluating value).run formula = formula.evaluate value := by
  obtain ⟨found, -, -, readAll⟩ := parse_eq_ok.1 parsed
  obtain ⟨derivation, rfl, nests, -⟩ :=
    (sound_levelFor (source.length + 1) 257).2 .or found formula [] readAll
  have shallow : derivation.formula.height ≤ 770 := by
    have bounded := derivation.height_le
    simp only [Phrase.strength, Connective.strength] at bounded
    omega
  refine ⟨fun formulas descent => ?_, rfl, fun α recursion => ?_, run_rendering _, run_listing _,
    fun m _ value => run_evaluating value _⟩
  · exact Nat.le_trans descent.length_le_height shallow
  · rw [recursion.runWithin_eq, if_pos shallow]

/-! ## The highest formulas -/

/-- A text that is written with the tokens of a derivation is read as its formula. -/
theorem parse_of_writes {source : String} {derivation : Derivation (.chain .or)}
    (writes : Writes source.toList derivation.tokens) (nests : derivation.nesting ≤ 256) :
    parse source = .ok derivation.formula := by
  obtain ⟨found, split, tokens⟩ := writes.lexemes
  have some_ : found ≠ [] := by
    rintro rfl
    exact derivation_tokens_ne_nil derivation tokens.symm
  have readAll :=
    complete_levelFor (source.length + 1) derivation nests tokens [] (stops_nil _)
  rw [List.append_nil] at readAll
  exact parse_eq_ok.2 ⟨found, split, some_, readAll⟩

/-- Chains of all three connectives, each of which begins with the one before it. -/
def exSlope (unary : Derivation .unary) : Derivation (.chain .or) :=
  let a : Derivation .unary := .primary (.name "a")
  .joined (.joined (.joined unary (.single a)) (.single (.single a))) (.single (.single (.single a)))

/-- Such chains on as many levels as possible: each is in parentheses at the beginning of the next. -/
def exSteep : Nat → Derivation (.chain .or)
  | 0 => exSlope (.negation (.primary (.name "a")))
  | levels + 1 => exSlope (.primary (.parenthesised (exSteep levels)))

def exSteepText : Nat → List Char
  | 0 => "!a^^a&&a||a".toList
  | levels + 1 => '(' :: (exSteepText levels ++ ")^^a&&a||a".toList)

theorem exSteep_nesting (levels : Nat) : (exSteep levels).nesting = levels + 1 := by
  induction levels with
  | zero => rfl
  | succ levels ih => simp [exSteep, exSlope, Derivation.nesting, ih]

theorem exSteep_height (levels : Nat) : (exSteep levels).formula.height = 3 * levels + 5 := by
  induction levels with
  | zero => rfl
  | succ levels ih =>
    simp only [exSteep, exSlope, Derivation.formula, height, ih]
    omega

theorem exSteep_writes (levels : Nat) : Writes (exSteepText levels) (exSteep levels).tokens := by
  have a : Writes ['a'] [.name "a"] := by
    refine @Writes.token (.name "a") fun text same => ?_
    cases same
    exact ⟨⟨'a', [], rfl, rfl, nofun⟩, by decide, by decide⟩
  have last : Writes "||a".toList [.connective .or, .name "a"] :=
    @Writes.symbol _ _ (.connective .or) rfl a
  have behind : Writes "&&a||a".toList [.connective .and, .name "a", .connective .or, .name "a"] :=
    @Writes.symbol _ _ (.connective .and) rfl (a.append last (by decide))
  have others : Writes "^^a&&a||a".toList
      [.connective .xor, .name "a", .connective .and, .name "a", .connective .or, .name "a"] :=
    @Writes.symbol _ _ (.connective .xor) rfl (a.append behind (by decide))
  induction levels with
  | zero => exact @Writes.symbol _ _ .negation rfl (a.append others (by decide))
  | succ levels ih =>
    have closed := ih.append (@Writes.symbol _ _ .closeParen rfl others) (by decide)
    have tokens : (exSteep (levels + 1)).tokens = .openParen :: ((exSteep levels).tokens ++
        .closeParen :: [.connective .xor, .name "a", .connective .and, .name "a", .connective .or,
          .name "a"]) := by
      simp [exSteep, exSlope, Derivation.tokens]
    rw [tokens]
    exact @Writes.symbol _ _ .openParen rfl closed

/-- The bound is reached on 256 levels. -/
theorem exSteep_shallow :
    ∃ formula, parse (String.ofList (exSteepText 255)) = .ok formula ∧ formula.height = 770 ∧
      (∀ formulas, Descent formula formulas → formulas.length ≤ 3 * maxNesting + 2) ∧
      rendering.runWithin 770 formula = some formula.render ∧
      rendering.runWithin 769 formula = none := by
  have writes : Writes (String.ofList (exSteepText 255)).toList (exSteep 255).tokens := by
    rw [String.toList_ofList]
    exact exSteep_writes 255
  have parsed := parse_of_writes writes (Nat.le_of_eq (exSteep_nesting 255))
  have height := exSteep_height 255
  obtain ⟨descents, -, results, renders, -⟩ := parse_shallow parsed
  refine ⟨_, parsed, height, descents, (results String rendering).trans (congrArg some renders), ?_⟩
  rw [rendering.runWithin_eq, height]
  rfl

end Formula

end ConfigTemplate
