import ConfigTemplate.Proofs.Condition.Evaluation

/-!
# Evaluating live

Live evaluation follows every reference anew. It enters the same conditions as evaluation does, but
it has no records, so it may come to the same condition many times. Without a limit it finds exactly
the values that the entries determine, and this joins it to evaluation with records, which finds no
others.

Results:
1. `live_eq_ok_iff`: live evaluation without a limit finds the values that the entries determine.
2. `succeeds_of_live`: evaluation with records has a result wherever live evaluation has one.
3. `evaluate_agrees_live`: both evaluations of a formula agree, if the records are live values.
-/

namespace ConfigTemplate

namespace Condition.Table

/-! ## Live evaluation -/

/-- The active conditions with one more, unless it is active already or the limit, if there is one,
is reached. -/
def push (limit : Option Nat) (active : List String) (name : String) :
    Except EvalError (List String) :=
  if name ∈ active then .error (.cyclicCondition (name :: active).reverse)
  else match limit with
    | none => .ok (name :: active)
    | some most =>
      if most ≤ active.length then .error (.depthExceeded most) else .ok (name :: active)

theorem push_eq_ok {limit : Option Nat} {active inside : List String} {name : String}
    (pushes : push limit active name = .ok inside) : name ∉ active ∧ inside = name :: active := by
  unfold push at pushes
  split at pushes
  · cases pushes
  · rename_i fresh
    split at pushes
    · cases pushes
      exact ⟨fresh, rfl⟩
    · split at pushes <;> cases pushes
      exact ⟨fresh, rfl⟩

/-- Evaluation enters the conditions that can be pushed. -/
theorem enter_eq_push (state : Evaluation) (name : String) :
    state.enter name = (push (some state.limit) state.active name).map
      fun active => { state with active } := by
  unfold Evaluation.enter push Evaluation.depth
  split
  · rfl
  · dsimp only
    split <;> rfl

/-- A condition of the table is inactive before it is pushed and active behind it. -/
theorem inactive_lt {table : Table} {limit : Option Nat} {active inside : List String}
    {name : String} (known : table.contains name) (pushes : push limit active name = .ok inside) :
    (table.names.filter (· ∉ inside)).length < (table.names.filter (· ∉ active)).length := by
  obtain ⟨fresh, rfl⟩ := push_eq_ok pushes
  have fewer : table.names.filter (· ∉ name :: active) =
      (table.names.filter (· ∉ active)).filter (· ≠ name) := by
    rw [List.filter_filter]
    exact List.filter_congr fun other _ => by simp
  rw [fewer]
  refine List.length_filter_lt_length_iff_exists.2 ⟨name, ?_, by simp⟩
  simp [mem_names_iff.2 known, fresh]

/-- The value of a condition, found by evaluating its formula and everything that it refers to, as
often as it does. It ends also without a limit, because no condition is entered inside itself. -/
def live (table : Table) (limit : Option Nat) (active : List String) (name : String) :
    Except EvalError Bool :=
  match _found : table.entries.get? name with
  | none => .error (.unknownCondition name)
  | some (.resolved value) => .ok value
  | some (.pending formula) =>
    match _pushes : push limit active name with
    | .error cause => .error cause
    | .ok inside => formula.evaluate fun other => table.live limit inside other
termination_by (table.names.filter (· ∉ active)).length
decreasing_by exact inactive_lt (contains_iff.2 ⟨_, _found⟩) _pushes

variable {table : Table} {limit : Option Nat} {active : List String} {name : String} {truth : Bool}

theorem live_eq (table : Table) (limit : Option Nat) (active : List String) (name : String) :
    table.live limit active name =
      match table.entries.get? name with
      | none => .error (.unknownCondition name)
      | some (.resolved value) => .ok value
      | some (.pending formula) =>
        match push limit active name with
        | .error cause => .error cause
        | .ok inside => formula.evaluate (table.live limit inside) := by
  rw [live]
  rcases table.entries.get? name with _ | formula | value
  · rfl
  · rcases push limit active name with cause | inside <;> rfl
  · rfl

/-- What live evaluation finds are values that the entries determine. -/
theorem hasValue_of_live (finds : table.live limit active name = .ok truth) :
    table.HasValue name truth := by
  fun_induction live table limit active name generalizing truth with
  | case1 active name missing => cases finds
  | case2 active name value found =>
    cases finds
    exact .resolved found
  | case3 active name formula found cause refused => cases finds
  | case4 active name formula found inside pushes ih =>
    obtain ⟨values, operands, rfl⟩ := Formula.evaluate_eq_ok_iff.1 finds
    exact .pending found fun other member => ih other (operands other member)

/-- Live evaluation without a limit finds the values that the entries determine, because no active
condition that leads to such a condition by references comes up again. -/
theorem live_of_hasValue (has : table.HasValue name truth)
    (outer : table.IsPending name → ∀ other ∈ active, Relation.TransGen table.Links other name) :
    table.live none active name = .ok truth := by
  induction has generalizing active with
  | resolved found => rw [live_eq, found]
  | @pending name formula value found operands ih =>
    have pending : table.IsPending name := ⟨formula, found⟩
    have fresh : name ∉ active := fun member =>
      (HasValue.pending found operands).not_loop (outer pending name member)
    have pushes : push none active name = .ok (name :: active) := if_neg fresh
    rw [live_eq, found]
    dsimp only
    rw [pushes]
    refine Formula.evaluate_eq_ok_iff.2 ⟨value, fun other member => ?_, rfl⟩
    refine ih other member fun further => ?_
    have link : table.Links name other := ⟨⟨formula, found, member⟩, further⟩
    refine List.forall_mem_cons.2 ⟨.single link, fun before inside => ?_⟩
    exact (outer pending before inside).tail link

theorem live_eq_ok_iff : table.live none [] name = .ok truth ↔ table.HasValue name truth :=
  ⟨hasValue_of_live, fun has => live_of_hasValue has fun _ _ member => nomatch member⟩

/-- A formula that determines a truth has it live, too. -/
theorem Determines.evaluate_live {formula : Formula} (determines : table.Determines formula truth) :
    formula.evaluate (table.live none []) = .ok truth :=
  Formula.evaluate_eq_ok_iff.2 ⟨table.meaning, fun name member =>
    live_eq_ok_iff.2 (determines.operands name member), determines.truth_eq⟩

theorem determines_of_evaluate_live {formula : Formula}
    (finds : formula.evaluate (table.live limit active) = .ok truth) :
    table.Determines formula truth := by
  obtain ⟨values, operands, rfl⟩ := Formula.evaluate_eq_ok_iff.1 finds
  have has : ∀ name ∈ formula.conditions, table.HasValue name (values name) :=
    fun name member => hasValue_of_live (operands name member)
  refine ⟨fun name member => (has name member).meaning_eq ▸ has name member, ?_⟩
  exact Formula.truth_congr fun name member => (has name member).meaning_eq

/-! ## Evaluation with records -/

/-- Where live evaluation has a result, evaluation with records has one: it enters no condition that
live evaluation does not enter at the same place. -/
theorem succeeds_of_live {limit room : Nat}
    (finds : table.live (some limit) active name = .ok truth)
    (enough : limit ≤ active.length + room) :
    table.Succeeds active limit (table.valueWithin room name) := by
  fun_induction live table (some limit) active name generalizing truth room with
  | case1 active name missing => cases finds
  | case2 active name value found =>
    refine succeeds_valueWithin_of_entering (contains_iff.2 ⟨_, found⟩) fun formula pending => ?_
    cases found.symm.trans pending
  | case3 active name formula found cause refused => cases finds
  | case4 active name formula found inside pushes ih =>
    have enters : ∀ state : Evaluation, state.active = active → state.limit = limit →
        state.enter name = .ok { state with active := name :: state.active } := by
      rintro state rfl rfl
      rw [enter_eq_push, pushes, (push_eq_ok pushes).2]
      rfl
    obtain rfl := (push_eq_ok pushes).2
    have below : active.length < limit := by
      by_contra full
      simp [push, (push_eq_ok pushes).1, Nat.not_lt.1 full] at pushes
    obtain ⟨room, rfl⟩ : ∃ less, room = less + 1 := ⟨room - 1, by omega⟩
    obtain ⟨values, operands, rfl⟩ := Formula.evaluate_eq_ok_iff.1 finds
    refine succeeds_valueWithin_of_entering (contains_iff.2 ⟨_, found⟩) fun other pending => ?_
    obtain rfl := pending_inj found pending
    refine succeeds_entering enters (succeeds_formula (table.yields_valueWithin room) ?_)
    refine fun other member => ih other (operands other member) ?_
    rw [List.length_cons]
    omega

theorem succeeds_valueOf_of_live {limit : Nat}
    (finds : table.live (some limit) active name = .ok truth) :
    table.Succeeds active limit (table.valueOf name) := by
  rintro state sound rfl rfl
  exact succeeds_of_live finds (by rw [Evaluation.depth]; omega) state sound rfl rfl

/-- Evaluating a formula with records that are live values finds only its live value, and finds it
wherever live evaluation does, from the same active conditions and with the same limit. Whatever
comes of it, the active conditions are the same as before, no record is lost or changed, and every
record is a live value again. -/
theorem evaluate_agrees_live (table : Table) (formula : Formula) (state : Evaluation)
    (faithful : ∀ name truth, state.recorded.get? name = some truth →
      table.live none [] name = .ok truth) :
    let (outcome, after) := formula.evaluate table.valueOf state
    (∀ truth, outcome = .ok truth → formula.evaluate (table.live none []) = .ok truth) ∧
      (∀ truth, formula.evaluate (table.live (some state.limit) state.active) = .ok truth →
        outcome = .ok truth) ∧
      after.Extends state ∧
      ∀ name truth, after.recorded.get? name = some truth →
        table.live none [] name = .ok truth := by
  have sound : table.Sound state := fun name truth recorded =>
    live_eq_ok_iff.1 (faithful name truth recorded)
  have yields := yields_formula table.yields_valueOf formula
  rcases evaluates : formula.evaluate table.valueOf state with ⟨outcome, after⟩
  obtain ⟨afterSound, extended, determines⟩ := yields state outcome after sound evaluates
  refine ⟨fun truth found => (determines truth found).evaluate_live, fun truth finds => ?_,
    extended, fun name truth recorded => live_eq_ok_iff.2 (afterSound name truth recorded)⟩
  obtain ⟨values, operands, -⟩ := Formula.evaluate_eq_ok_iff.1 finds
  have succeeds : table.Succeeds state.active state.limit (formula.evaluate table.valueOf) :=
    succeeds_formula table.yields_valueOf fun name member =>
      succeeds_valueOf_of_live (operands name member)
  obtain ⟨value, last, run⟩ := succeeds state sound rfl rfl
  cases evaluates.symm.trans run
  have own := (determines value rfl).truth_eq
  rw [← own, (determines_of_evaluate_live finds).truth_eq]

/-- An evaluation inside another condition, with the value of `b` recorded. -/
def exEvaluation : Evaluation := ⟨["z"], NameMap.empty.insert "b" false, 2⟩

theorem exTable_live_b : exTable.live none [] "b" = .ok false := by
  have operands : ∀ other ∈ ["c"], exTable.HasValue other true := by
    intro other member
    obtain rfl := List.mem_singleton.1 member
    exact .resolved rfl
  exact live_eq_ok_iff.2
    (@HasValue.pending exTable "b" (.negation (.condition "c")) (fun _ => true) rfl operands)

theorem exTable_agrees_live :
    (∀ name truth, exEvaluation.recorded.get? name = some truth →
      exTable.live none [] name = .ok truth) ∧
    ∃ after : Evaluation,
      (Formula.condition "a").evaluate exTable.valueOf exEvaluation = (.ok true, after) ∧
      (Formula.condition "a").evaluate (exTable.live none []) = .ok true ∧
      after.Extends exEvaluation ∧ after.recorded.get? "a" = some true ∧
      exTable.live none [] "a" = .ok true := by
  have faithful : ∀ name truth, exEvaluation.recorded.get? name = some truth →
      exTable.live none [] name = .ok truth := by
    intro name truth recorded
    simp only [exEvaluation, NameMap.get?_insert, NameMap.get?_empty] at recorded
    split at recorded
    · rename_i same
      cases recorded
      exact same ▸ exTable_live_b
    · cases recorded
  let after : Evaluation := ⟨["z"], (NameMap.empty.insert "b" false).insert "a" true, 2⟩
  have run : (Formula.condition "a").evaluate exTable.valueOf exEvaluation = (.ok true, after) := by
    rfl
  have agrees := evaluate_agrees_live exTable (.condition "a") exEvaluation faithful
  rw [run] at agrees
  obtain ⟨live, -, extended, records⟩ := agrees
  exact ⟨faithful, after, run, live true rfl, extended, rfl, records "a" true rfl⟩

end Condition.Table

end ConfigTemplate
