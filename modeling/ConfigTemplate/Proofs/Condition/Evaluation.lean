import ConfigTemplate.Proofs.Condition.Reference

/-!
# Evaluating the condition table

Evaluation keeps one invariant: what has been recorded are values that the entries determine
(`Table.Sound`). Every computation of a value keeps it, gives back the conditions that were active
before, and adds to the records without changing them (`Yields`).

Results:
1. `yields_valueOf`: the value of a condition, if evaluation finds one, is the one that the entries
   determine.
2. `succeeds_valueWithin`: if the references are closed, free of loops and shallow, then evaluation
   finds a value, because the active conditions always form a chain of references.
3. `evaluateAll_settles`: evaluating the whole table succeeds for such tables, and whenever it
   succeeds, it leaves the only solution of the table.
-/

namespace ConfigTemplate

/-- The active conditions are those of before, and no record is lost or changed. -/
structure Evaluation.Extends (after before : Evaluation) : Prop where
  active : after.active = before.active
  limit : after.limit = before.limit
  recorded : ∀ name truth, before.recorded.get? name = some truth →
    after.recorded.get? name = some truth

namespace Evaluation.Extends

variable {first second third : Evaluation}

theorem refl (state : Evaluation) : state.Extends state := ⟨rfl, rfl, fun _ _ found => found⟩

theorem trans (later : third.Extends second) (earlier : second.Extends first) :
    third.Extends first :=
  ⟨later.active.trans earlier.active, later.limit.trans earlier.limit,
    fun name truth found => later.recorded name truth (earlier.recorded name truth found)⟩

end Evaluation.Extends

namespace Condition.Table

variable {table : Table} {α β : Type}

/-- What has been recorded are values that the entries determine. -/
def Sound (table : Table) (state : Evaluation) : Prop :=
  ∀ name truth, state.recorded.get? name = some truth → table.HasValue name truth

theorem sound_start (limit : Nat) : table.Sound (.start limit) := by
  intro name truth found
  simp [Evaluation.start] at found

/-! ## What evaluation yields -/

/-- A computation that keeps the invariant, gives back the active conditions, and has only results
with the given property. -/
def Yields (table : Table) (computation : EvalM α) (result : α → Prop) : Prop :=
  ∀ before outcome after, table.Sound before → computation before = (outcome, after) →
    table.Sound after ∧ after.Extends before ∧ ∀ value, outcome = .ok value → result value

theorem yields_pure {value : α} {result : α → Prop} (holds : result value) :
    table.Yields (pure value) result := by
  intro before outcome after sound same
  cases same
  refine ⟨sound, .refl _, fun found same => ?_⟩
  cases same
  exact holds

theorem yields_bind {first : EvalM α} {second : α → EvalM β} {middle : α → Prop}
    {result : β → Prop} (begins : table.Yields first middle)
    (continues : ∀ value, middle value → table.Yields (second value) result) :
    table.Yields (first >>= second) result := by
  intro before outcome after sound same
  rw [Attempt.run_bind] at same
  split at same
  · rename_i value between run
    obtain ⟨betweenSound, betweenExtends, holds⟩ := begins _ _ _ sound run
    obtain ⟨afterSound, afterExtends, results⟩ :=
      continues value (holds value rfl) _ _ _ betweenSound same
    exact ⟨afterSound, afterExtends.trans betweenExtends, results⟩
  · rename_i cause between run
    cases same
    obtain ⟨betweenSound, betweenExtends, -⟩ := begins _ _ _ sound run
    exact ⟨betweenSound, betweenExtends, fun value same => nomatch same⟩

/-- All conditions of a formula have values, and the formula has this truth under them. -/
structure Determines (table : Table) (formula : Formula) (truth : Bool) : Prop where
  operands : ∀ name ∈ formula.conditions, table.HasValue name (table.meaning name)
  truth_eq : formula.truth table.meaning = truth

theorem yields_formula {value : String → EvalM Bool}
    (resolves : ∀ name, table.Yields (value name) (table.HasValue name)) (formula : Formula) :
    table.Yields (formula.evaluate value) (table.Determines formula) := by
  induction formula with
  | constant truth => exact yields_pure ⟨fun name member => (List.not_mem_nil member).elim, rfl⟩
  | condition name =>
    intro before outcome after sound same
    obtain ⟨afterSound, afterExtends, holds⟩ := resolves name before outcome after sound same
    refine ⟨afterSound, afterExtends, fun truth found => ?_⟩
    have has := holds truth found
    refine ⟨fun other member => ?_, has.meaning_eq⟩
    obtain rfl := List.mem_singleton.1 member
    exact has.meaning_eq.symm ▸ has
  | negation operand ih =>
    refine yields_bind ih fun truth determines => yields_pure ⟨determines.operands, ?_⟩
    rw [Formula.truth, determines.truth_eq]
  | binary connective left right ihLeft ihRight =>
    refine yields_bind ihLeft fun first leftDetermines =>
      yields_bind ihRight fun second rightDetermines => yields_pure ⟨fun name member => ?_, ?_⟩
    · rcases List.mem_append.1 member with inLeft | inRight
      · exact leftDetermines.operands name inLeft
      · exact rightDetermines.operands name inRight
    · rw [Formula.truth, leftDetermines.truth_eq, rightDetermines.truth_eq,
        Connective.apply_eq_truth]

theorem enter_eq_ok {state inside : Evaluation} {name : String}
    (entered : state.enter name = .ok inside) :
    inside = { state with active := name :: state.active } := by
  unfold Evaluation.enter at entered
  split at entered
  · cases entered
  · split at entered
    · cases entered
    · exact (Except.ok.inj entered).symm

/-- Recording the value of a condition keeps the invariant and changes no other record, because a
condition has at most one value. -/
theorem sound_record (state : Evaluation) {name : String} {truth : Bool}
    (sound : table.Sound state) (has : table.HasValue name truth) :
    table.Sound (state.record name truth) ∧ (state.record name truth).Extends state := by
  refine ⟨fun other value found => ?_, rfl, rfl, fun other value found => ?_⟩
  · simp only [Evaluation.record, NameMap.get?_insert] at found
    split at found
    · rename_i same
      cases found
      exact same ▸ has
    · exact sound other value found
  · simp only [Evaluation.record, NameMap.get?_insert]
    split
    · rename_i same
      subst same
      exact congrArg some (has.functional (sound other value found))
    · exact found

theorem yields_entering {name : String} {body : EvalM Bool}
    (yields : table.Yields body (table.HasValue name)) :
    table.Yields (entering name body) (table.HasValue name) := by
  intro before outcome after sound same
  unfold entering at same
  split at same
  · cases same
    exact ⟨sound, .refl _, fun value same => nomatch same⟩
  · rename_i inside entered
    obtain rfl := enter_eq_ok entered
    have entering : table.Sound { before with active := name :: before.active } := sound
    split at same
    · rename_i truth reached run
      cases same
      obtain ⟨reachedSound, extended, holds⟩ := yields _ _ _ entering run
      have has := holds truth rfl
      have left : reached.leave.Extends before :=
        ⟨congrArg List.tail extended.active, extended.limit, extended.recorded⟩
      obtain ⟨recorded, kept⟩ := sound_record reached.leave reachedSound has
      exact ⟨recorded, kept.trans left, fun value same => by cases same; exact has⟩
    · rename_i cause reached run
      cases same
      obtain ⟨reachedSound, extended, -⟩ := yields _ _ _ entering run
      exact ⟨reachedSound, ⟨congrArg List.tail extended.active, extended.limit,
        extended.recorded⟩, fun value same => nomatch same⟩

/-- The value of a formula when at most `room` further conditions can be entered. -/
def formulaWithin (table : Table) : Nat → Formula → EvalM Bool
  | 0, _ => fun state => (.error (.depthExceeded state.limit), state)
  | room + 1, formula => formula.evaluate (table.valueWithin room)

theorem valueWithin_eq (table : Table) (room : Nat) (name : String) (state : Evaluation) :
    table.valueWithin room name state =
      match table.entries.get? name with
      | none => (.error (.unknownCondition name), state)
      | some (.resolved truth) => (.ok truth, state)
      | some (.pending formula) =>
        match state.recorded.get? name with
        | some truth => (.ok truth, state)
        | none => entering name (table.formulaWithin room formula) state := by
  cases room with
  | zero =>
    have same : ∀ formula, entering name (throw (.depthExceeded state.limit)) state =
        entering name (table.formulaWithin 0 formula) state := by
      intro formula
      unfold entering
      split
      · rfl
      · rename_i inside entered
        obtain rfl := enter_eq_ok entered
        rfl
    unfold valueWithin
    rcases table.entries.get? name with _ | formula | truth
    · rfl
    · rcases state.recorded.get? name with _ | truth
      · exact same formula
      · rfl
    · rfl
  | succ room =>
    rw [valueWithin]
    rcases table.entries.get? name with _ | formula | truth <;> rfl

theorem yields_valueWithin_of_formula {room : Nat} {name : String}
    (yields : ∀ formula, table.entries.get? name = some (.pending formula) →
      table.Yields (table.formulaWithin room formula) (table.HasValue name)) :
    table.Yields (table.valueWithin room name) (table.HasValue name) := by
  intro before outcome after sound same
  rw [valueWithin_eq] at same
  split at same
  · cases same
    exact ⟨sound, .refl _, fun value same => nomatch same⟩
  · rename_i truth found
    cases same
    exact ⟨sound, .refl _, fun value same => by cases same; exact .resolved found⟩
  · rename_i formula found
    split at same
    · rename_i truth recorded
      cases same
      exact ⟨sound, .refl _, fun value same => by cases same; exact sound _ _ recorded⟩
    · exact yields_entering (yields formula found) _ _ _ sound same

theorem Determines.hasValue {name : String} {formula : Formula} {truth : Bool}
    (determines : table.Determines formula truth)
    (found : table.entries.get? name = some (.pending formula)) : table.HasValue name truth :=
  determines.truth_eq ▸ .pending found determines.operands

theorem Yields.imp {computation : EvalM α} {result weaker : α → Prop}
    (yields : table.Yields computation result) (implies : ∀ value, result value → weaker value) :
    table.Yields computation weaker := by
  intro before outcome after sound same
  obtain ⟨afterSound, extended, holds⟩ := yields before outcome after sound same
  exact ⟨afterSound, extended, fun value same => implies value (holds value same)⟩

/-- If evaluation finds a value for a condition, then the entries determine this value. -/
theorem yields_valueWithin (table : Table) (room : Nat) (name : String) :
    table.Yields (table.valueWithin room name) (table.HasValue name) := by
  induction room generalizing name with
  | zero =>
    refine yields_valueWithin_of_formula fun formula found => ?_
    intro before outcome after sound same
    cases same
    exact ⟨sound, .refl _, fun value same => nomatch same⟩
  | succ room ih =>
    exact yields_valueWithin_of_formula fun formula found =>
      (yields_formula ih formula).imp fun truth determines => determines.hasValue found

theorem yields_valueOf (table : Table) (name : String) :
    table.Yields (table.valueOf name) (table.HasValue name) :=
  fun before => table.yields_valueWithin _ name before

/-- The value that is found for a pending condition has been recorded. -/
theorem recorded_of_valueWithin {room : Nat} {name : String} {before after : Evaluation}
    {truth : Bool} (pending : table.IsPending name)
    (same : table.valueWithin room name before = (.ok truth, after)) :
    after.recorded.get? name = some truth := by
  obtain ⟨formula, found⟩ := pending
  rw [valueWithin_eq] at same
  simp only [found] at same
  split at same
  · rename_i recorded
    cases same
    exact recorded
  · unfold entering at same
    split at same
    · cases same
    · split at same
      · cases same
        simp [Evaluation.record]
      · cases same

/-! ## When evaluation succeeds -/

/-- From every state with the given active conditions and the given limit, the computation has a
result. -/
def Succeeds (table : Table) (active : List String) (limit : Nat) (computation : EvalM α) : Prop :=
  ∀ state, table.Sound state → state.active = active → state.limit = limit →
    ∃ value after, computation state = (.ok value, after)

variable {active : List String} {limit : Nat}

theorem succeeds_pure (value : α) : table.Succeeds active limit (pure value) :=
  fun state _ _ _ => ⟨value, state, rfl⟩

theorem succeeds_bind {first : EvalM α} {second : α → EvalM β} {middle : α → Prop}
    (yields : table.Yields first middle) (begins : table.Succeeds active limit first)
    (continues : ∀ value, table.Succeeds active limit (second value)) :
    table.Succeeds active limit (first >>= second) := by
  intro state sound same bounded
  obtain ⟨value, between, run⟩ := begins state sound same bounded
  obtain ⟨betweenSound, extended, -⟩ := yields _ _ _ sound run
  obtain ⟨result, after, continued⟩ := continues value between betweenSound
    (extended.active.trans same) (extended.limit.trans bounded)
  refine ⟨result, after, ?_⟩
  rw [Attempt.run_bind, run]
  exact continued

theorem succeeds_formula {value : String → EvalM Bool}
    (resolves : ∀ name, table.Yields (value name) (table.HasValue name)) {formula : Formula}
    (finds : ∀ name ∈ formula.conditions, table.Succeeds active limit (value name)) :
    table.Succeeds active limit (formula.evaluate value) := by
  induction formula with
  | constant truth => exact succeeds_pure truth
  | condition name => exact finds name List.mem_cons_self
  | negation operand ih =>
    exact succeeds_bind (yields_formula resolves operand) (ih finds) fun truth => succeeds_pure _
  | binary connective left right ihLeft ihRight =>
    refine succeeds_bind (yields_formula resolves left)
      (ihLeft fun name member => finds name (List.mem_append_left _ member)) fun first => ?_
    exact succeeds_bind (yields_formula resolves right)
      (ihRight fun name member => finds name (List.mem_append_right _ member))
      fun second => succeeds_pure _

/-- From a condition to the one that refers to it. -/
def ReferredBy (table : Table) (inner outer : String) : Prop := table.Links outer inner

theorem transGen_of_isChain {name outer : String}
    (chain : (name :: active).IsChain table.ReferredBy) (member : outer ∈ active) :
    Relation.TransGen table.Links outer name := by
  induction active generalizing name with
  | nil => cases member
  | cons next rest ih =>
    obtain ⟨link, further⟩ := List.isChain_cons_cons.1 chain
    rcases List.mem_cons.1 member with rfl | inRest
    · exact .single link
    · exact (ih further inRest).tail link

/-- A condition can be entered if the active conditions lead to it by references. -/
theorem enter_of_isChain {state : Evaluation} {name : String} (acyclic : table.Acyclic)
    (shallow : table.Shallow state.limit)
    (chain : (name :: state.active).IsChain table.ReferredBy) :
    state.enter name = .ok { state with active := name :: state.active } := by
  have fresh : name ∉ state.active :=
    fun member => acyclic name (transGen_of_isChain chain member)
  have bounded := shallow _ (List.isChain_reverse.2 chain)
  rw [List.length_reverse, List.length_cons] at bounded
  have room : ¬ state.limit ≤ state.depth := Nat.not_le.2 bounded
  simp [Evaluation.enter, fresh, room]

theorem succeeds_entering {name : String} {body : EvalM Bool}
    (enters : ∀ state : Evaluation, state.active = active → state.limit = limit →
      state.enter name = .ok { state with active := name :: state.active })
    (succeeds : table.Succeeds (name :: active) limit body) :
    table.Succeeds active limit (entering name body) := by
  intro state sound same bounded
  have entered := enters state same bounded
  subst same bounded
  obtain ⟨truth, after, run⟩ :=
    succeeds { state with active := name :: state.active } sound rfl rfl
  refine ⟨truth, after.leave.record name truth, ?_⟩
  simp [entering, entered, run]

theorem succeeds_valueWithin_of_entering {room : Nat} {name : String}
    (known : table.contains name)
    (enters : ∀ formula, table.entries.get? name = some (.pending formula) →
      table.Succeeds active limit (entering name (table.formulaWithin room formula))) :
    table.Succeeds active limit (table.valueWithin room name) := by
  intro state sound same bounded
  rw [valueWithin_eq]
  split
  · rename_i missing
    obtain ⟨entry, found⟩ := contains_iff.1 known
    cases missing.symm.trans found
  · exact ⟨_, _, rfl⟩
  · rename_i formula found
    split
    · exact ⟨_, _, rfl⟩
    · exact enters formula found state sound same bounded

/-- Evaluation finds the value of every condition to which the active ones lead by references. -/
theorem succeeds_valueWithin (closed : table.Closed) (acyclic : table.Acyclic)
    (shallow : table.Shallow limit) {room : Nat} {name : String} (known : table.contains name)
    (chain : table.IsPending name → (name :: active).IsChain table.ReferredBy)
    (enough : active.length + room = limit) :
    table.Succeeds active limit (table.valueWithin room name) := by
  induction room generalizing name active with
  | zero =>
    refine succeeds_valueWithin_of_entering known fun formula found => ?_
    -- The chain that ends here would be longer than the limit.
    have deep := shallow _ (List.isChain_reverse.2 (chain ⟨formula, found⟩))
    rw [List.length_reverse, List.length_cons] at deep
    omega
  | succ room ih =>
    refine succeeds_valueWithin_of_entering known fun formula found => ?_
    have onPath := chain ⟨formula, found⟩
    refine succeeds_entering (fun state same bounded => ?_) ?_
    · subst same bounded
      exact enter_of_isChain acyclic shallow onPath
    refine succeeds_formula (table.yields_valueWithin room) fun other member => ?_
    have refers : table.Refers name other := ⟨formula, found, member⟩
    refine ih (closed name other refers) (fun pending => ?_) ?_
    · exact List.isChain_cons_cons.2 ⟨⟨refers, pending⟩, onPath⟩
    · rw [List.length_cons, Nat.succ_add]
      exact enough

/-! ## Evaluating all conditions -/

/-- After all of some conditions have been evaluated, they have values, and those of the pending
ones are recorded. -/
theorem evaluateNames_records {names : List String} {before after : Evaluation}
    (sound : table.Sound before) (run : table.evaluateNames names before = .ok after) :
    table.Sound after ∧ after.Extends before ∧ ∀ name ∈ names,
      (∃ truth, table.HasValue name truth) ∧
        (table.IsPending name → ∃ truth, after.recorded.get? name = some truth) := by
  induction names generalizing before with
  | nil =>
    cases run
    exact ⟨sound, .refl _, fun name member => (List.not_mem_nil member).elim⟩
  | cons first rest ih =>
    rw [evaluateNames] at run
    split at run
    · rename_i truth between found
      obtain ⟨betweenSound, extended, has⟩ :=
        table.yields_valueWithin _ first _ _ _ sound found
      obtain ⟨afterSound, furtherExtended, others⟩ := ih betweenSound run
      refine ⟨afterSound, furtherExtended.trans extended, fun name member => ?_⟩
      rcases List.mem_cons.1 member with rfl | inRest
      · refine ⟨⟨truth, has truth rfl⟩, fun pending => ⟨truth, ?_⟩⟩
        exact furtherExtended.recorded _ _ (recorded_of_valueWithin pending found)
      · exact others name inRest
    · cases run

theorem evaluateNames_succeeds (closed : table.Closed) (acyclic : table.Acyclic)
    (shallow : table.Shallow limit) {names : List String} {before : Evaluation}
    (known : ∀ name ∈ names, table.contains name) (sound : table.Sound before)
    (idle : before.active = []) (bounded : before.limit = limit) :
    ∃ after, table.evaluateNames names before = .ok after := by
  induction names generalizing before with
  | nil => exact ⟨before, rfl⟩
  | cons first rest ih =>
    have enough : ([] : List String).length + (before.limit - before.depth) = limit := by
      simp [Evaluation.depth, idle, bounded]
    obtain ⟨truth, between, found⟩ := succeeds_valueWithin closed acyclic shallow
      (known first List.mem_cons_self) (fun _ => .singleton first) enough before sound idle bounded
    obtain ⟨betweenSound, extended, -⟩ := table.yields_valueWithin _ first _ _ _ sound found
    obtain ⟨after, run⟩ := ih (fun name member => known name (List.mem_cons_of_mem _ member))
      betweenSound (extended.active.trans idle) (extended.limit.trans bounded)
    refine ⟨after, ?_⟩
    rw [evaluateNames, valueOf, found]
    exact run

/-- The second table holds the only solution of the first one. -/
structure Settled (table after : Table) : Prop where
  names : after.names = table.names
  resolved : ∀ name, table.contains name →
    ∃ truth, after.entries.get? name = some (.resolved truth)
  kept : ∀ name truth, table.entries.get? name = some (.resolved truth) →
    after.entries.get? name = some (.resolved truth)
  solves_iff : ∀ value, table.Solves value ↔
    ∀ name, table.contains name → after.value? name = some (value name)

/-- The table with the values that the entries determine. -/
noncomputable def withMeaning (table : Table) : Table :=
  ⟨table.entries.mapValues fun name _ => .resolved (table.meaning name)⟩

theorem settled_withMeaning (determined : table.Determined) :
    table.Settled table.withMeaning := by
  have value : ∀ name, table.contains name →
      table.withMeaning.entries.get? name = some (.resolved (table.meaning name)) := by
    intro name known
    obtain ⟨entry, found⟩ := contains_iff.1 known
    simp [withMeaning, found]
  refine ⟨?_, fun name known => ⟨_, value name known⟩, fun name truth found => ?_, fun other => ?_⟩
  · simp [names, NameMap.names, withMeaning, NameMap.mapValues, Function.comp_def]
  · rw [value name (contains_iff.2 ⟨_, found⟩), (HasValue.resolved found).meaning_eq]
  · constructor
    · intro solves name known
      obtain ⟨truth, has⟩ := determined name known
      simp [value?, value name known, has.meaning_eq, has.eq_of_solves solves]
    · intro agrees
      have same : ∀ name, table.contains name → other name = table.meaning name := by
        intro name known
        have found := agrees name known
        simpa [value?, value name known, eq_comm] using found
      refine ⟨fun name truth found => ?_, fun name formula found => ?_⟩
      · rw [same name (contains_iff.2 ⟨_, found⟩)]
        exact determined.solves.resolved name truth found
      · rw [same name (contains_iff.2 ⟨_, found⟩), determined.solves.pending name formula found]
        exact Formula.truth_congr fun operand member =>
          (same operand (determined.closed name operand ⟨formula, found, member⟩)).symm

/-- Evaluating all conditions leaves the values that the entries determine. -/
theorem evaluateAll_eq_withMeaning {after : Table} (run : table.evaluateAll = .ok after) :
    table.Determined ∧ after = table.withMeaning := by
  unfold evaluateAll at run
  cases evaluated : table.evaluateNames table.names (.start Evaluation.defaultLimit) with
  | error failure => simp [evaluated, bind, Except.bind] at run
  | ok state =>
    obtain ⟨sound, -, evaluates⟩ :=
      evaluateNames_records (table.sound_start _) evaluated
    have determined : table.Determined :=
      fun name known => (evaluates name (mem_names_iff.2 known)).1
    refine ⟨determined, ?_⟩
    simp only [evaluated, bind, Except.bind, pure, Except.pure, Except.ok.injEq] at run
    subst run
    refine congrArg Table.mk (NameMap.ext_get? fun name => ?_)
    rw [NameMap.get?_mapValues, NameMap.get?_mapValues]
    cases found : table.entries.get? name with
    | none => rfl
    | some entry =>
      have known : table.contains name := contains_iff.2 ⟨entry, found⟩
      cases entry with
      | resolved truth =>
        have own : table.meaning name = truth := (HasValue.resolved found).meaning_eq
        cases recorded : state.recorded.get? name with
        | none => simp [own]
        | some value => simp [(sound name value recorded).meaning_eq]
      | pending formula =>
        obtain ⟨truth, recorded⟩ :=
          (evaluates name (mem_names_iff.2 known)).2 ⟨formula, found⟩
        simp [recorded, (sound name truth recorded).meaning_eq]

/-- Evaluating all conditions succeeds if the references are closed, free of loops and pass through
at most 64 pending conditions. Whenever it succeeds, they are closed and free of loops, and the
table that is left holds the only solution. -/
theorem evaluateAll_settles (table : Table) :
    (table.Closed → table.Acyclic → table.Shallow 64 →
      ∃ after, table.evaluateAll = .ok after ∧ table.Settled after) ∧
    ∀ after, table.evaluateAll = .ok after →
      table.Closed ∧ table.Acyclic ∧ table.Settled after := by
  have settles : ∀ after, table.evaluateAll = .ok after →
      table.Closed ∧ table.Acyclic ∧ table.Settled after := by
    intro after run
    obtain ⟨determined, rfl⟩ := evaluateAll_eq_withMeaning run
    exact ⟨determined.closed, determined.acyclic, settled_withMeaning determined⟩
  refine ⟨fun closed acyclic shallow => ?_, settles⟩
  obtain ⟨state, evaluated⟩ := evaluateNames_succeeds closed acyclic shallow
    (fun _ => mem_names_iff.1)
    (table.sound_start Evaluation.defaultLimit) rfl rfl
  have run : ∃ after, table.evaluateAll = .ok after := by
    rw [evaluateAll, evaluated]
    exact ⟨_, rfl⟩
  obtain ⟨after, run⟩ := run
  exact ⟨after, run, (settles after run).2.2⟩

/-- Three conditions of which the first refers to the other two, and the second to the third. -/
def exTable : Table :=
  ((Table.empty.insert "a" (.pending (.binary .xor (.condition "c") (.condition "b")))).insert "b"
    (.pending (.negation (.condition "c")))).insert "c" (.resolved true)

theorem exTable_entries {name : String} {entry : Entry}
    (found : exTable.entries.get? name = some entry) :
    name = "a" ∧ entry = .pending (.binary .xor (.condition "c") (.condition "b")) ∨
    name = "b" ∧ entry = .pending (.negation (.condition "c")) ∨
    name = "c" ∧ entry = .resolved true := by
  simp only [exTable, Table.insert, Table.empty, NameMap.get?_insert, NameMap.get?_empty] at found
  split at found
  · rename_i same
    exact .inr (.inr ⟨same, (Option.some.inj found).symm⟩)
  · split at found
    · rename_i same
      exact .inr (.inl ⟨same, (Option.some.inj found).symm⟩)
    · split at found
      · rename_i same
        exact .inl ⟨same, (Option.some.inj found).symm⟩
      · cases found

theorem exTable_refers {name other : String} (refers : exTable.Refers name other) :
    name = "a" ∧ (other = "c" ∨ other = "b") ∨ name = "b" ∧ other = "c" := by
  obtain ⟨formula, found, member⟩ := refers
  rcases exTable_entries found with ⟨same, entry⟩ | ⟨same, entry⟩ | ⟨-, entry⟩ <;> cases entry
  · exact .inl ⟨same, by simpa [Formula.conditions] using member⟩
  · exact .inr ⟨same, by simpa [Formula.conditions] using member⟩

theorem exTable_solves : exTable.Solves fun name => name != "b" where
  resolved name truth found := by
    rcases exTable_entries found with ⟨rfl, entry⟩ | ⟨rfl, entry⟩ | ⟨rfl, entry⟩ <;> cases entry
    rfl
  pending name formula found := by
    rcases exTable_entries found with ⟨rfl, entry⟩ | ⟨rfl, entry⟩ | ⟨rfl, entry⟩ <;> cases entry <;>
      rfl

theorem exTable_links {name other : String} (links : exTable.Links name other) :
    name = "a" ∧ other = "b" := by
  obtain ⟨refers, formula, found⟩ := links
  rcases exTable_refers refers with ⟨rfl, rfl | rfl⟩ | ⟨rfl, rfl⟩
  · cases found
  · exact ⟨rfl, rfl⟩
  · cases found

theorem exTable_length_le {chain : List String} (linked : chain.IsChain exTable.Links) :
    chain.length ≤ 2 := by
  match chain, linked with
  | [], _ | [_], _ | [_, _], _ => simp
  | _ :: _ :: _ :: _, .cons_cons first (.cons_cons second _) =>
    exact absurd ((exTable_links first).2.symm.trans (exTable_links second).1) (by decide)

theorem exTable_loop {name other : String} (path : Relation.TransGen exTable.Links name other) :
    name = "a" ∧ other = "b" := by
  induction path with
  | single link => exact exTable_links link
  | tail _ link ih => exact ⟨ih.1, (exTable_links link).2⟩

/-- The third condition is true, hence the second one false and the first one true. -/
theorem exTable_settles : ∃ after, exTable.evaluateAll = .ok after ∧ exTable.Settled after ∧
    after.value? "a" = some true ∧ after.value? "b" = some false ∧ after.value? "c" = some true := by
  have settles : ∃ after, exTable.evaluateAll = .ok after ∧ exTable.Settled after := by
    refine (evaluateAll_settles exTable).1 ?_ ?_ ?_
    · intro name other refers
      rcases exTable_refers refers with ⟨-, rfl | rfl⟩ | ⟨-, rfl⟩ <;> rfl
    · intro name loop
      obtain ⟨isA, isB⟩ := exTable_loop loop
      exact absurd (isA.symm.trans isB) (by decide)
    · exact fun chain linked => (exTable_length_le linked).trans (by decide)
  obtain ⟨after, run, settled⟩ := settles
  have values := (settled.solves_iff _).1 exTable_solves
  exact ⟨after, run, settled, values "a" rfl, values "b" rfl, values "c" rfl⟩

end Condition.Table

end ConfigTemplate
