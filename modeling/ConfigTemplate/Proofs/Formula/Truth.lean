import ConfigTemplate.Formula.Evaluation

/-!
# The truth of formulas

What the connectives say of two truth values, written out, and with it the truth of a formula for
given truth values of its conditions. This is what evaluation is measured by.

Results:
1. `Connective.apply_eq_truth`: a connective is applied as it is meant.
2. `Formula.evaluate_eq_ok_iff`: evaluation from left to right finds the truth of a formula.
-/

namespace ConfigTemplate

namespace Connective

/-- Both, at least one, and exactly one of two truth values. -/
def truth : Connective → Bool → Bool → Bool
  | .and, left, right => left && right
  | .or, left, right => left || right
  | .xor, left, right => left != right

theorem apply_eq_truth (connective : Connective) (left right : Bool) :
    connective.apply left right = connective.truth left right := by
  cases connective <;> rfl

theorem truth_assoc (connective : Connective) (first second third : Bool) :
    connective.truth (connective.truth first second) third =
      connective.truth first (connective.truth second third) := by
  cases connective
  · exact Bool.and_assoc first second third
  · exact Bool.or_assoc first second third
  · exact Bool.xor_assoc first second third

end Connective

namespace Formula

/-- The truth of a formula for given truth values of its conditions. -/
def truth (value : String → Bool) : Formula → Bool
  | .constant truth => truth
  | .condition name => value name
  | .negation operand => !operand.truth value
  | .binary connective left right => connective.truth (left.truth value) (right.truth value)

theorem truth_congr {formula : Formula} {left right : String → Bool}
    (same : ∀ name ∈ formula.conditions, left name = right name) :
    formula.truth left = formula.truth right := by
  induction formula with
  | constant truth => rfl
  | condition name => exact same name List.mem_cons_self
  | negation operand ih => rw [truth, truth, ih same]
  | binary connective first second ihFirst ihSecond =>
    rw [truth, truth, ihFirst fun name member => same name (List.mem_append_left _ member),
      ihSecond fun name member => same name (List.mem_append_right _ member)]

/-- A formula has a value if all of its conditions have, and then the truth under them. -/
theorem evaluate_eq_ok_iff {ε : Type} {value : String → Except ε Bool} {formula : Formula}
    {truth : Bool} :
    formula.evaluate value = .ok truth ↔ ∃ values : String → Bool,
      (∀ name ∈ formula.conditions, value name = .ok (values name)) ∧
        formula.truth values = truth := by
  constructor
  · intro evaluates
    refine ⟨fun name => (value name).toOption.getD false, ?_⟩
    induction formula generalizing truth with
    | constant own =>
      cases evaluates
      exact ⟨fun name member => (List.not_mem_nil member).elim, rfl⟩
    | condition name =>
      have found : value name = .ok truth := evaluates
      refine ⟨fun other member => ?_, ?_⟩
      · obtain rfl := List.mem_singleton.1 member
        simp [found, Except.toOption]
      · simp [Formula.truth, found, Except.toOption]
    | negation operand ih =>
      obtain ⟨inner, found, same⟩ := except_bind_eq_ok evaluates
      cases same
      obtain ⟨operands, own⟩ := ih found
      exact ⟨operands, by rw [Formula.truth, own]⟩
    | binary connective left right ihLeft ihRight =>
      obtain ⟨first, inLeft, further⟩ := except_bind_eq_ok evaluates
      obtain ⟨second, inRight, same⟩ := except_bind_eq_ok further
      cases same
      obtain ⟨leftOperands, leftTruth⟩ := ihLeft inLeft
      obtain ⟨rightOperands, rightTruth⟩ := ihRight inRight
      refine ⟨fun name member => ?_, ?_⟩
      · exact (List.mem_append.1 member).elim (leftOperands name) (rightOperands name)
      · rw [Formula.truth, leftTruth, rightTruth, Connective.apply_eq_truth]
  · rintro ⟨values, operands, rfl⟩
    induction formula with
    | constant own => rfl
    | condition name => exact operands name List.mem_cons_self
    | negation operand ih =>
      rw [evaluate, ih operands]
      rfl
    | binary connective left right ihLeft ihRight =>
      rw [evaluate, ihLeft fun name member => operands name (List.mem_append_left _ member),
        ihRight fun name member => operands name (List.mem_append_right _ member), Formula.truth,
        ← Connective.apply_eq_truth]
      rfl

end Formula

end ConfigTemplate
