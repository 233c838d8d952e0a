import ConfigTemplate.Formula.Evaluation

/-!
# The condition table

Every condition of a run has an entry: first a formula, later its value. `Table.evaluateAll` turns
all formulas into values at once. While it does, a condition is looked up in the table as it was at
the start, so a formula may refer to conditions in any order.
-/

namespace ConfigTemplate.Condition

/-- What is known of a condition. -/
inductive Entry where
  | pending (formula : Formula)
  | resolved (value : Bool)
deriving DecidableEq, Repr

/-- The conditions of a run. -/
structure Table where
  entries : NameMap Entry
deriving DecidableEq, Repr

/-- A condition for which evaluation failed, and why. -/
structure Failure where
  name : String
  cause : EvalError
deriving DecidableEq, Repr

namespace Table

def empty : Table := ⟨.empty⟩

def insert (table : Table) (name : String) (entry : Entry) : Table :=
  ⟨table.entries.insert name entry⟩

/-- Adds a condition with a fixed value that has yet to be evaluated. -/
def insertConstant (table : Table) (name : String) (value : Bool) : Table :=
  table.insert name (.pending (.constant value))

def contains (table : Table) (name : String) : Bool := table.entries.contains name

def size (table : Table) : Nat := table.entries.size

/-- The names of all conditions, in increasing order. -/
def names (table : Table) : List String := table.entries.names

/-- The value of a condition that has been evaluated. -/
def value? (table : Table) (name : String) : Option Bool :=
  match table.entries.get? name with
  | some (.resolved value) => some value
  | some (.pending _) | none => none

/-- Whether a condition has been evaluated to true. -/
def isTrue (table : Table) (name : String) : Bool := table.value? name == some true

/-- Evaluates a condition by `body` between entering and leaving it, and records its value. The
condition is left also when `body` fails. -/
def entering (name : String) (body : EvalM Bool) : EvalM Bool := fun state =>
  match state.enter name with
  | .error cause => (.error cause, state)
  | .ok inside =>
    match body inside with
    | (.ok value, after) => (.ok value, after.leave.record name value)
    | (.error cause, after) => (.error cause, after.leave)

/-- The value of a condition, found by evaluating its formula unless the value is known. At most
`room` conditions can be entered from here on. -/
def valueWithin (table : Table) (room : Nat) (name : String) : EvalM Bool := fun state =>
  match table.entries.get? name with
  | none => (.error (.unknownCondition name), state)
  | some (.resolved value) => (.ok value, state)
  | some (.pending formula) =>
    match state.recorded.get? name with
    | some value => (.ok value, state)
    | none =>
      match room with
      -- No condition can be entered any more, so the body is never reached.
      | 0 => entering name (throw (.depthExceeded state.limit)) state
      | room + 1 => entering name (formula.evaluate (table.valueWithin room)) state

/-- The value of a condition, found by evaluating its formula unless the value is known. -/
def valueOf (table : Table) (name : String) : EvalM Bool := fun state =>
  table.valueWithin (state.limit - state.depth) name state

/-- Evaluates conditions one after the other, up to the first that fails. -/
def evaluateNames (table : Table) : List String → Evaluation → Except Failure Evaluation
  | [], state => .ok state
  | name :: rest, state =>
    match table.valueOf name state with
    | (.ok _, after) => table.evaluateNames rest after
    | (.error cause, _) => .error ⟨name, cause⟩

/-- Replaces every formula of the table by its value, or fails at the first condition, in the order
of the names, that has none. -/
def evaluateAll (table : Table) : Except Failure Table := do
  let state ← table.evaluateNames table.names (.start Evaluation.defaultLimit)
  return ⟨table.entries.mapValues fun name entry =>
    match state.recorded.get? name with
    | some value => .resolved value
    | none => entry⟩

end Table

end ConfigTemplate.Condition
