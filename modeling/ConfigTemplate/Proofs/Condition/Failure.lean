import ConfigTemplate.Proofs.Condition.Evaluation

/-!
# Why evaluation fails

The conditions that are active when evaluation fails lead to each other by references, from the
condition that evaluation started with to the one at which it fails. The error says what is wrong
there (`Table.Blames`), so a table with closed references and no loops fails at a long chain only.

Results:
1. `fails_valueOf`: every error is traced along references to the condition that it is about.
2. `evaluateNames_fails`: so is the error of a whole pass, from the condition that failed.
3. `Determined.deep_of_fails`: if the entries determine all values, then the depth is exceeded, and
   the table has a chain of references that is longer than the limit.
-/

namespace ConfigTemplate.Condition.Table

/-! ## Traces of references -/

/-- The second condition mentions the first one. -/
def MentionedBy (table : Table) (inner outer : String) : Prop := table.Refers outer inner

/-- Distinct pending conditions, the innermost one first, each mentioned by the one behind it. -/
structure Trail (table : Table) (active : List String) : Prop where
  linked : active.IsChain table.MentionedBy
  pending : ∀ name ∈ active, table.IsPending name
  distinct : active.Nodup

theorem Trail.nil (table : Table) : table.Trail [] :=
  ⟨.nil, fun _ member => (List.not_mem_nil member).elim, .nil⟩

/-- What an error says of the condition at which it arises, when these conditions are active. -/
inductive Blames (table : Table) (limit : Nat) (active : List String) (name : String) :
    EvalError → Prop
  | unknown (missing : table.entries.get? name = none) :
      Blames table limit active name (.unknownCondition name)
  | cyclic (again : name ∈ active) :
      Blames table limit active name (.cyclicCondition (name :: active).reverse)
  | deep (pending : table.IsPending name) (fresh : name ∉ active) (full : limit ≤ active.length) :
      Blames table limit active name (.depthExceeded limit)

/-- An error arises behind the given conditions, at one to which they lead by references. -/
def TracedFrom (table : Table) (limit : Nat) (path : List String) (cause : EvalError) : Prop :=
  ∃ name active, path <:+ name :: active ∧ (name :: active).IsChain table.MentionedBy ∧
    table.Trail active ∧ table.Blames limit active name cause

variable {table : Table} {α β : Type} {active : List String} {limit : Nat} {name : String}
  {cause : EvalError}

theorem TracedFrom.of_cons {path : List String}
    (traced : table.TracedFrom limit (name :: path) cause) : table.TracedFrom limit path cause := by
  obtain ⟨failing, inside, behind, rest⟩ := traced
  exact ⟨failing, inside, (List.suffix_cons name path).trans behind, rest⟩

/-! ## Errors of an evaluation -/

/-- From every state with the given active conditions and the given limit, the computation has only
errors with the given property. -/
def Fails (table : Table) (active : List String) (limit : Nat) (computation : EvalM α)
    (blame : EvalError → Prop) : Prop :=
  ∀ state cause after, table.Sound state → state.active = active → state.limit = limit →
    computation state = (.error cause, after) → blame cause

theorem fails_pure {value : α} {blame : EvalError → Prop} :
    table.Fails active limit (pure value) blame :=
  fun _ _ _ _ _ _ same => nomatch same

theorem fails_bind {first : EvalM α} {second : α → EvalM β} {middle : α → Prop}
    {blame : EvalError → Prop} (yields : table.Yields first middle)
    (begins : table.Fails active limit first blame)
    (continues : ∀ value, table.Fails active limit (second value) blame) :
    table.Fails active limit (first >>= second) blame := by
  intro state cause after sound same bounded fails
  rcases Attempt.run_bind_eq_error_iff.1 fails with early | ⟨value, between, run, late⟩
  · exact begins state cause after sound same bounded early
  · obtain ⟨betweenSound, extended, -⟩ := yields _ _ _ sound run
    exact continues value between cause after betweenSound (extended.active.trans same)
      (extended.limit.trans bounded) late

theorem fails_formula {value : String → EvalM Bool} {blame : EvalError → Prop}
    (resolves : ∀ name, table.Yields (value name) (table.HasValue name)) {formula : Formula}
    (fails : ∀ name ∈ formula.conditions, table.Fails active limit (value name) blame) :
    table.Fails active limit (formula.evaluate value) blame := by
  induction formula with
  | constant truth => exact fails_pure
  | condition name => exact fails name List.mem_cons_self
  | negation operand ih =>
    exact fails_bind (yields_formula resolves operand) (ih fails) fun truth => fails_pure
  | binary connective left right ihLeft ihRight =>
    refine fails_bind (yields_formula resolves left)
      (ihLeft fun name member => fails name (List.mem_append_left _ member)) fun first => ?_
    exact fails_bind (yields_formula resolves right)
      (ihRight fun name member => fails name (List.mem_append_right _ member))
      fun second => fails_pure

/-- A condition that is not entered closes a loop, or comes when the limit is reached. -/
theorem blames_of_enter {state : Evaluation} (pending : table.IsPending name)
    (refused : state.enter name = .error cause) :
    table.Blames state.limit state.active name cause := by
  unfold Evaluation.enter at refused
  split at refused
  · rename_i again
    cases refused
    exact .cyclic again
  · rename_i fresh
    split at refused
    · rename_i full
      cases refused
      exact .deep pending fresh full
    · cases refused

/-- A condition that is entered is fresh, and the limit leaves room for it. -/
theorem fresh_of_enter {state inside : Evaluation} (entered : state.enter name = .ok inside) :
    name ∉ state.active ∧ state.active.length < state.limit := by
  unfold Evaluation.enter Evaluation.depth at entered
  split at entered
  · cases entered
  · rename_i fresh
    split at entered
    · cases entered
    · rename_i room
      exact ⟨fresh, Nat.not_le.1 room⟩

theorem fails_entering {body : EvalM Bool} (trail : table.Trail active)
    (linked : (name :: active).IsChain table.MentionedBy) (pending : table.IsPending name)
    (fails : table.Trail (name :: active) → active.length < limit →
      table.Fails (name :: active) limit body (table.TracedFrom limit (name :: active))) :
    table.Fails active limit (entering name body) (table.TracedFrom limit (name :: active)) := by
  rintro state cause after sound rfl rfl same
  unfold entering at same
  split at same
  · rename_i refused
    cases same
    exact ⟨name, state.active, List.suffix_rfl, linked, trail, blames_of_enter pending refused⟩
  · rename_i inside entered
    obtain ⟨fresh, room⟩ := fresh_of_enter entered
    obtain rfl := enter_eq_ok entered
    have deeper : table.Trail (name :: state.active) :=
      ⟨linked, List.forall_mem_cons.2 ⟨pending, trail.pending⟩,
        List.nodup_cons.2 ⟨fresh, trail.distinct⟩⟩
    split at same
    · cases same
    · rename_i run
      cases same
      exact fails deeper room { state with active := name :: state.active } _ _ sound rfl rfl run

theorem fails_valueWithin_of_entering {room : Nat} (trail : table.Trail active)
    (linked : (name :: active).IsChain table.MentionedBy)
    (enters : ∀ formula, table.entries.get? name = some (.pending formula) →
      table.Fails active limit (entering name (table.formulaWithin room formula))
        (table.TracedFrom limit (name :: active))) :
    table.Fails active limit (table.valueWithin room name)
      (table.TracedFrom limit (name :: active)) := by
  intro state cause after sound same bounded fails
  rw [valueWithin_eq] at fails
  split at fails
  · rename_i missing
    cases fails
    exact ⟨name, active, List.suffix_rfl, linked, trail, .unknown missing⟩
  · cases fails
  · rename_i formula found
    split at fails
    · cases fails
    · exact enters formula found _ _ _ sound same bounded fails

/-- If a condition has no value, then the error is traced along references to the condition that it
is about. -/
theorem fails_valueWithin {room : Nat} (trail : table.Trail active)
    (linked : (name :: active).IsChain table.MentionedBy) (enough : limit ≤ active.length + room) :
    table.Fails active limit (table.valueWithin room name)
      (table.TracedFrom limit (name :: active)) := by
  induction room generalizing name active with
  | zero =>
    refine fails_valueWithin_of_entering trail linked fun formula found => ?_
    refine fails_entering trail linked ⟨formula, found⟩ fun _ below => ?_
    omega
  | succ room ih =>
    refine fails_valueWithin_of_entering trail linked fun formula found => ?_
    refine fails_entering trail linked ⟨formula, found⟩ fun deeper _ => ?_
    refine fails_formula (table.yields_valueWithin room) fun other member => ?_
    have onPath := List.isChain_cons_cons.2 ⟨⟨formula, found, member⟩, linked⟩
    have fails := ih deeper onPath (by rw [List.length_cons]; omega)
    exact fun state cause after sound same bounded run =>
      (fails state cause after sound same bounded run).of_cons

theorem fails_valueOf (table : Table) (name : String) (limit : Nat) :
    table.Fails [] limit (table.valueOf name) (table.TracedFrom limit [name]) := by
  rintro state cause after sound idle rfl fails
  refine fails_valueWithin (.nil table) (.singleton name) ?_ _ _ _ sound idle rfl fails
  simp [Evaluation.depth, idle]

/-- If a pass over some conditions fails, then at one of them, and the error is traced from it. -/
theorem evaluateNames_fails {names : List String} {before : Evaluation} {failure : Failure}
    (sound : table.Sound before) (idle : before.active = [])
    (run : table.evaluateNames names before = .error failure) :
    failure.name ∈ names ∧ table.TracedFrom before.limit [failure.name] failure.cause := by
  induction names generalizing before with
  | nil => cases run
  | cons first rest ih =>
    rw [evaluateNames] at run
    split at run
    · rename_i truth between found
      obtain ⟨betweenSound, extended, -⟩ := table.yields_valueOf first _ _ _ sound found
      obtain ⟨member, traced⟩ := ih betweenSound (extended.active.trans idle) run
      exact ⟨List.mem_cons_of_mem _ member, extended.limit ▸ traced⟩
    · rename_i fails
      cases run
      exact ⟨List.mem_cons_self, fails_valueOf table first _ _ _ _ sound idle rfl fails⟩

/-- A failed evaluation of all conditions is a failed pass over their names. -/
theorem evaluateNames_of_evaluateAll {failure : Failure} (run : table.evaluateAll = .error failure) :
    table.evaluateNames table.names (.start Evaluation.defaultLimit) = .error failure := by
  unfold evaluateAll at run
  cases evaluated : table.evaluateNames table.names (.start Evaluation.defaultLimit) with
  | ok state => simp [evaluated, bind, Except.bind, pure, Except.pure] at run
  | error cause =>
    simp only [evaluated, bind, Except.bind, Except.error.injEq] at run
    rw [run]

theorem evaluateAll_fails {failure : Failure} (run : table.evaluateAll = .error failure) :
    table.contains failure.name ∧ table.TracedFrom 64 [failure.name] failure.cause := by
  obtain ⟨member, traced⟩ :=
    evaluateNames_fails (table.sound_start _) rfl (evaluateNames_of_evaluateAll run)
  exact ⟨mem_names_iff.1 member, traced⟩

/-! ## Tables that determine their values -/

/-- A chain of references passes through more than so many distinct pending conditions. -/
def Deep (table : Table) (limit : Nat) : Prop :=
  ∃ chain : List String, chain.IsChain table.Links ∧ (∀ name ∈ chain, table.IsPending name) ∧
    chain.Nodup ∧ limit < chain.length

/-- References between pending conditions are links. -/
theorem isChain_referredBy {chain : List String} (linked : chain.IsChain table.MentionedBy)
    (pending : ∀ name ∈ chain, table.IsPending name) : chain.IsChain table.ReferredBy := by
  refine List.IsChain.imp_of_mem_imp (fun inner outer inChain _ refers => ?_) linked
  exact ⟨refers, pending inner inChain⟩

/-- If the entries determine all values, then evaluation can fail only because of the limit, at a
chain of references that is longer. -/
theorem Determined.deep_of_fails (determined : table.Determined) (known : table.contains name)
    (traced : table.TracedFrom limit [name] cause) :
    cause = .depthExceeded limit ∧ table.Deep limit := by
  obtain ⟨failing, inside, behind, linked, trail, blames⟩ := traced
  cases blames with
  | unknown missing =>
    have present : table.contains failing := by
      cases inside with
      | nil =>
        obtain rfl : name = failing := by simpa using List.suffix_cons_iff.1 behind
        exact known
      | cons outer rest =>
        exact determined.closed outer failing (List.isChain_cons_cons.1 linked).1
    obtain ⟨entry, found⟩ := contains_iff.1 present
    cases missing.symm.trans found
  | cyclic again =>
    have pending : ∀ other ∈ failing :: inside, table.IsPending other :=
      List.forall_mem_cons.2 ⟨trail.pending failing again, trail.pending⟩
    exact (determined.acyclic failing
      (transGen_of_isChain (isChain_referredBy linked pending) again)).elim
  | deep pending fresh full =>
    have all : ∀ other ∈ failing :: inside, table.IsPending other :=
      List.forall_mem_cons.2 ⟨pending, trail.pending⟩
    refine ⟨rfl, (failing :: inside).reverse, List.isChain_reverse.2 ?_, ?_, ?_, ?_⟩
    · exact isChain_referredBy linked all
    · exact fun other member => all other (List.mem_reverse.1 member)
    · exact (List.reverse_perm _).nodup_iff.2 (List.nodup_cons.2 ⟨fresh, trail.distinct⟩)
    · simpa using Nat.lt_succ_of_le full

theorem Determined.deep_of_evaluateAll {failure : Failure} (determined : table.Determined)
    (run : table.evaluateAll = .error failure) :
    failure.cause = .depthExceeded 64 ∧ table.Deep 64 :=
  determined.deep_of_fails (evaluateAll_fails run).1 (evaluateAll_fails run).2

end ConfigTemplate.Condition.Table
