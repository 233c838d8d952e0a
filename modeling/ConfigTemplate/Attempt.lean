/-!
# Attempts

Computations that change a state and may fail. What was changed before a failure stays changed. The
lemmas here run such a computation step by step, and say with which errors it can fail.
-/

namespace ConfigTemplate

/-- Computations on a state `σ` that fail with an `ε` and keep what they changed before. -/
abbrev Attempt (ε σ : Type) := ExceptT ε (StateM σ)

namespace Attempt

variable {ε σ α β : Type}

/-- The attempt that has the given result and changes nothing. -/
def ofExcept (result : Except ε α) : Attempt ε σ α := fun state => (result, state)

theorem run_bind (first : Attempt ε σ α) (second : α → Attempt ε σ β) (state : σ) :
    (first >>= second) state =
      match first state with
      | (.ok value, after) => second value after
      | (.error cause, after) => (.error cause, after) := by
  show (ExceptT.bindCont second (first state).1) (first state).2 = _
  rcases first state with ⟨_ | value, after⟩ <;> rfl

theorem run_bind_eq_ok_iff {first : Attempt ε σ α} {second : α → Attempt ε σ β}
    {state after : σ} {result : β} :
    (first >>= second) state = (.ok result, after) ↔
      ∃ value middle, first state = (.ok value, middle) ∧
        second value middle = (.ok result, after) := by
  rw [run_bind]
  rcases first state with ⟨cause | value, middle⟩
  · exact ⟨(nomatch ·), fun ⟨_, _, same, _⟩ => nomatch same⟩
  · exact ⟨fun same => ⟨value, middle, rfl, same⟩, fun ⟨_, _, rfl, same⟩ => same⟩

theorem run_bind_eq_error_iff {first : Attempt ε σ α} {second : α → Attempt ε σ β}
    {state after : σ} {cause : ε} :
    (first >>= second) state = (.error cause, after) ↔
      first state = (.error cause, after) ∨ ∃ value middle, first state = (.ok value, middle) ∧
        second value middle = (.error cause, after) := by
  rw [run_bind]
  rcases first state with ⟨other | value, middle⟩
  · exact ⟨fun same => .inl (by cases same; rfl), fun fails => fails.elim
      (fun same => by cases same; rfl) fun ⟨_, _, same, _⟩ => nomatch same⟩
  · exact ⟨fun same => .inr ⟨value, middle, rfl, same⟩,
      fun fails => fails.elim (nomatch ·) fun ⟨_, _, rfl, same⟩ => same⟩

theorem run_get (state : σ) : (get : Attempt ε σ σ) state = (.ok state, state) := rfl

theorem run_modify (change : σ → σ) (state : σ) :
    (modify change : Attempt ε σ Unit) state = (.ok (), change state) := rfl

theorem run_ofExcept (result : Except ε α) (state : σ) :
    (ofExcept result : Attempt ε σ α) state = (result, state) := rfl

theorem run_get_bind (rest : σ → Attempt ε σ α) (state : σ) :
    (get >>= rest : Attempt ε σ α) state = rest state state := rfl

theorem run_set_bind (new : σ) (rest : PUnit → Attempt ε σ α) (state : σ) :
    (set new >>= rest : Attempt ε σ α) state = rest ⟨⟩ new := rfl

theorem run_modify_bind (change : σ → σ) (rest : Unit → Attempt ε σ α) (state : σ) :
    (modify change >>= rest : Attempt ε σ α) state = rest () (change state) := rfl

theorem run_ofExcept_bind_eq_ok_iff {result : Except ε α} {rest : α → Attempt ε σ β}
    {state after : σ} {value : β} :
    (ofExcept result >>= rest : Attempt ε σ β) state = (.ok value, after) ↔
      ∃ middle, result = .ok middle ∧ rest middle state = (.ok value, after) := by
  rw [run_bind, run_ofExcept]
  cases result with
  | error cause => exact ⟨(nomatch ·), fun ⟨_, same, _⟩ => nomatch same⟩
  | ok middle => exact ⟨fun same => ⟨middle, rfl, same⟩, fun ⟨_, rfl, same⟩ => same⟩

theorem run_ofExcept_bind_eq_error_iff {result : Except ε α} {rest : α → Attempt ε σ β}
    {state after : σ} {cause : ε} :
    (ofExcept result >>= rest : Attempt ε σ β) state = (.error cause, after) ↔
      result = .error cause ∧ after = state ∨
        ∃ middle, result = .ok middle ∧ rest middle state = (.error cause, after) := by
  rw [run_bind, run_ofExcept]
  cases result with
  | error other =>
    exact ⟨fun same => .inl (by cases same; exact ⟨rfl, rfl⟩),
      fun fails => fails.elim (fun ⟨same, unchanged⟩ => by cases same; cases unchanged; rfl)
        fun ⟨_, same, _⟩ => nomatch same⟩
  | ok middle =>
    exact ⟨fun same => .inr ⟨middle, rfl, same⟩,
      fun fails => fails.elim (fun ⟨same, _⟩ => nomatch same) fun ⟨_, rfl, same⟩ => same⟩

/-! ## Errors -/

/-- Whatever state it starts from, the computation fails with errors of this kind only. -/
def FailsOnly (kind : ε → Prop) (computation : Attempt ε σ α) : Prop :=
  ∀ state cause after, computation state = (.error cause, after) → kind cause

variable {kind : ε → Prop}

theorem failsOnly_pure (value : α) : FailsOnly kind (pure value : Attempt ε σ α) :=
  fun _ _ _ fails => nomatch fails

theorem failsOnly_get : FailsOnly kind (get : Attempt ε σ σ) := fun _ _ _ fails => nomatch fails

theorem failsOnly_set (state : σ) : FailsOnly kind (set state : Attempt ε σ PUnit) :=
  fun _ _ _ fails => nomatch fails

theorem failsOnly_modify (change : σ → σ) : FailsOnly kind (modify change : Attempt ε σ PUnit) :=
  fun _ _ _ fails => nomatch fails

theorem failsOnly_throw {cause : ε} (holds : kind cause) :
    FailsOnly kind (throw cause : Attempt ε σ α) := by
  intro state other after fails
  cases fails
  exact holds

theorem failsOnly_ofExcept {result : Except ε α}
    (holds : ∀ cause, result = .error cause → kind cause) :
    FailsOnly kind (ofExcept result : Attempt ε σ α) :=
  fun _ cause _ fails => holds cause (congrArg Prod.fst fails)

theorem failsOnly_mapError {ι : Type} {change : ι → ε} (result : Except ι α)
    (holds : ∀ why, kind (change why)) :
    FailsOnly kind (ofExcept (result.mapError change) : Attempt ε σ α) :=
  failsOnly_ofExcept fun cause fails => by
    cases result with
    | error why =>
      cases fails
      exact holds why
    | ok value => cases fails

theorem FailsOnly.bind {first : Attempt ε σ α} {second : α → Attempt ε σ β}
    (begins : FailsOnly kind first) (continues : ∀ value, FailsOnly kind (second value)) :
    FailsOnly kind (first >>= second) := by
  intro state cause after fails
  rcases run_bind_eq_error_iff.1 fails with now | ⟨value, middle, -, later⟩
  · exact begins state cause after now
  · exact continues value middle cause after later

theorem failsOnly_forM {step : α → Attempt ε σ PUnit} (each : ∀ value, FailsOnly kind (step value))
    (all : List α) : FailsOnly kind (all.forM step) := by
  induction all with
  | nil => exact failsOnly_pure _
  | cons first rest ih => exact (each first).bind fun _ => ih

end Attempt

/-- Without a state of its own, too, a computation that succeeds goes on from a result. -/
theorem except_bind_eq_ok {ε α β : Type} {first : Except ε α} {second : α → Except ε β} {value : β}
    (binds : (first >>= second) = .ok value) :
    ∃ middle, first = .ok middle ∧ second middle = .ok value := by
  cases first with
  | error cause => cases binds
  | ok middle => exact ⟨middle, rfl, binds⟩

theorem except_bind_eq_error {ε α β : Type} {first : Except ε α} {second : α → Except ε β} {cause : ε}
    (binds : (first >>= second) = .error cause) :
    first = .error cause ∨ ∃ middle, first = .ok middle ∧ second middle = .error cause := by
  cases first with
  | error other =>
    cases binds
    exact .inl rfl
  | ok middle => exact .inr ⟨middle, rfl, binds⟩

end ConfigTemplate
