import ConfigTemplate.Attempt
import ConfigTemplate.Formula.Basic
import ConfigTemplate.NameMap

/-!
# Evaluating formulas

A formula is evaluated from left to right; both operands of a connective are evaluated. The values
of conditions come from a resolver, which may in turn evaluate the formula behind a condition. An
`Evaluation` keeps the conditions that are being evaluated, so that a loop of references is found
and the depth is bounded, and the values found so far.
-/

namespace ConfigTemplate

/-- Why a formula has no value. -/
inductive EvalError where
  | unknownCondition (name : String)
  /-- The conditions refer to each other in a loop; the last name of the chain closes it. -/
  | cyclicCondition (chain : List String)
  | depthExceeded (limit : Nat)
deriving DecidableEq, Repr

def EvalError.message : EvalError → String
  | .unknownCondition name => "unknown condition '" ++ name ++ "'"
  | .cyclicCondition chain => "cyclic condition detected: " ++ String.intercalate " -> " chain
  | .depthExceeded limit => "maximum evaluation depth of " ++ toString limit ++ " exceeded"

/-- The state of an evaluation. -/
structure Evaluation where
  /-- The conditions that are being evaluated, the innermost one first. -/
  active : List String
  /-- The values of the conditions that have been evaluated. -/
  recorded : NameMap Bool
  /-- The number of conditions that may be active at a time. -/
  limit : Nat
deriving DecidableEq, Repr

namespace Evaluation

/-- The number of conditions that may be active at a time unless another limit is given. -/
def defaultLimit : Nat := 64

/-- An evaluation that has not started. -/
def start (limit : Nat) : Evaluation := ⟨[], .empty, limit⟩

def depth (state : Evaluation) : Nat := state.active.length

/-- Starts with a condition, unless it is active already or the limit is reached. -/
def enter (state : Evaluation) (name : String) : Except EvalError Evaluation :=
  if name ∈ state.active then .error (.cyclicCondition (name :: state.active).reverse)
  else if state.limit ≤ state.depth then .error (.depthExceeded state.limit)
  else .ok { state with active := name :: state.active }

/-- Ends the condition that was entered last. -/
def leave (state : Evaluation) : Evaluation := { state with active := state.active.tail }

/-- Keeps the value of a condition. -/
def record (state : Evaluation) (name : String) (value : Bool) : Evaluation :=
  { state with recorded := state.recorded.insert name value }

end Evaluation

/-- Computations that read and change the state of an evaluation, also when they fail. -/
abbrev EvalM := Attempt EvalError Evaluation

/-- The value of a formula for given values of its conditions. -/
def Formula.evaluate {m : Type → Type} [Monad m] (value : String → m Bool) : Formula → m Bool
  | .constant truth => pure truth
  | .condition name => value name
  | .negation operand => return !(← operand.evaluate value)
  | .binary connective left right => do
    let first ← left.evaluate value
    let second ← right.evaluate value
    return connective.apply first second

/-- Values of conditions that are given by a map. -/
def NameMap.resolve (values : NameMap Bool) (name : String) : Except EvalError Bool :=
  match values.get? name with
  | some value => .ok value
  | none => .error (.unknownCondition name)

end ConfigTemplate
