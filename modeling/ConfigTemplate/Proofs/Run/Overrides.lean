import ConfigTemplate.Proofs.Run.Properties

/-!
# Overrides

A request asks for values of properties by keys. A key stands for the last declared property that has
its name but for the case of ASCII letters, whether or not that declaration applies, and for itself if
there is none. What it stands for gets the value, unless an applied declaration of that spelling locks
it.

Results:
1. `buildProperties_eq`: the step makes the bindings of the applied declarations and then those of
   the request, and warns of each key that stands for a locked name.
2. `get_built`: the value of every name after the step.
3. `buildProperties_keeps_locked`: no request changes a locked name, and a key changes only what it
   stands for.
4. `buildProperties_overrides`: a key gets the value asked for if it stands for itself, and keeps its
   declared value if it stands for another spelling.
-/

namespace ConfigTemplate

/-- The names are the same but for the case of ASCII letters. -/
def SameButCase (name other : String) : Prop :=
  name.toList.map Char.toLower = other.toList.map Char.toLower

instance (name other : String) : Decidable (SameButCase name other) :=
  inferInstanceAs (Decidable (_ = _))

theorem sameButCase_iff {name other : String} :
    SameButCase name other ↔ name.map Char.toLower = other.map Char.toLower := by
  rw [← String.toList_inj, String.toList_map, String.toList_map, SameButCase]

namespace NameMap

variable {α : Type} {first second : NameMap α} {keep : String → Bool} {name : String}

/-- The map with some names only. -/
def only (keep : String → Bool) (m : NameMap α) : NameMap α :=
  ⟨m.toList.filter fun entry => keep entry.1, m.increasing.sublist List.filter_sublist⟩

theorem get?_only_eq_some_iff {m : NameMap α} {value : α} :
    (m.only keep).get? name = some value ↔ m.get? name = some value ∧ keep name := by
  rw [get?_eq_some_iff, get?_eq_some_iff]
  exact List.mem_filter

/-- Maps that agree on some names are the same with these names only. -/
theorem only_congr (agree : ∀ name, keep name → first.get? name = second.get? name) :
    first.only keep = second.only keep := by
  refine ext_get? fun name => Option.ext fun value => ?_
  rw [get?_only_eq_some_iff, get?_only_eq_some_iff]
  exact and_congr_left fun kept => by rw [agree name kept]

end NameMap

namespace Run

variable {run : Run} {name key value : String}

/-! ## What declarations and requests say -/

/-- The declaration is for all outputs, or for a configuration that is true. -/
def Applies (run : Run) (property : DeclaredProperty) : Prop :=
  ∀ owner ∈ property.scope,
    (run.catalog.configuration? owner).isSome ∧ run.conditions.value? owner = some true

instance (run : Run) : DecidablePred run.Applies := fun _ =>
  inferInstanceAs (Decidable (∀ _ ∈ _, _))

/-- The declarations that apply, first those for all outputs and then those of configurations. -/
def applied (run : Run) : List DeclaredProperty :=
  let counting := run.catalog.properties.filter (run.Applies ·)
  counting.filter (·.scope.isNone) ++ counting.filter (·.scope.isSome)

/-- Some applied declaration of exactly this spelling must keep its value. -/
def Locked (run : Run) (name : String) : Prop :=
  ∃ property ∈ run.applied, property.name = name ∧ property.overridable = false

instance (run : Run) : DecidablePred run.Locked := fun _ =>
  inferInstanceAs (Decidable (∃ _ ∈ run.applied, _))

/-- The value of the last applied declaration of exactly this spelling. -/
def declared? (run : Run) (name : String) : Option String :=
  (run.applied.filter (·.name = name)).getLast?.map DeclaredProperty.value

/-- What a key stands for: the spelling of the last declaration that has its name but for case. -/
def target (run : Run) (key : String) : String :=
  ((run.catalog.properties.filter (SameButCase ·.name key)).getLast?.map
    DeclaredProperty.name).getD key

/-- The value that the last key that stands for the name asks for. -/
def asked? (run : Run) (name : String) : Option String :=
  (run.request.properties.toList.filter (run.target ·.1 = name)).getLast?.map Prod.snd

/-- The run for a request that asks for other values of properties. -/
def asking (run : Run) (overrides : NameMap String) : Run :=
  { run with request := { run.request with properties := overrides } }

/-- What the applied declarations bind. -/
def declaredBindings (run : Run) : List (String × String) :=
  run.applied.map fun property => (property.name, property.value)

/-- What a key of the request binds, unless it stands for a locked name. -/
def wish? (run : Run) (wish : String × String) : Option (String × String) :=
  if run.Locked (run.target wish.1) then none else some (run.target wish.1, wish.2)

/-- What the keys of the request stand for, as far as it is locked. -/
def refused (run : Run) : List String :=
  (run.request.properties.names.map run.target).filter (run.Locked ·)

theorem activeProperties_eq (run : Run) :
    activeProperties run.catalog run.conditions = run.applied := by
  rw [activeProperties, applied, List.filter_filter, List.filter_filter]
  refine congrArg₂ (· ++ ·) (List.filter_congr fun property _ => ?_)
    (List.filter_congr fun property _ => ?_)
  · rw [Bool.eq_iff_iff, Bool.and_eq_true, decide_eq_true_iff, Applies]
    cases property.scope <;> simp
  · rw [Bool.eq_iff_iff, Bool.and_eq_true, decide_eq_true_iff, Applies]
    cases property.scope <;> simp [Condition.Table.isTrue]

theorem contains_lockedNames_applied (run : Run) (name : String) :
    (lockedNames run.applied).contains name = decide (run.Locked name) := by
  rw [Bool.eq_iff_iff, List.contains_iff_mem, decide_eq_true_iff, lockedNames, List.mem_map, Locked]
  simp only [List.mem_filter, Bool.not_eq_true']
  constructor
  · rintro ⟨property, ⟨member, locks⟩, same⟩
    exact ⟨property, member, same, locks⟩
  · rintro ⟨property, member, same, locks⟩
    exact ⟨property, ⟨member, locks⟩, same⟩

theorem spelled_eq_target (run : Run) (key : String) : spelled run.catalog key = run.target key := by
  have found : run.catalog.property? key =
      (run.catalog.properties.filter (SameButCase ·.name key)).getLast? := by
    simp only [Catalog.property?, sameButCase_iff, ← List.head?_filter, List.filter_reverse,
      List.head?_reverse]
  rw [spelled, target, found]
  generalize List.getLast? _ = property
  cases property <;> rfl

/-! ## The step -/

theorem override_of_locked {locked : List String} {wish : String × String}
    (known : run.scope.contains (spelled run.catalog wish.1))
    (kept : locked.contains (spelled run.catalog wish.1)) :
    override locked run wish =
      { run with
        warnings := run.warnings ++ [.propertyNotOverridable (spelled run.catalog wish.1)] } :=
  if_pos (Bool.and_eq_true_iff.2 ⟨known, kept⟩)

theorem override_of_free {locked : List String} {wish : String × String}
    (free : locked.contains (spelled run.catalog wish.1) = false) :
    override locked run wish =
      { run with scope := run.scope.set (spelled run.catalog wish.1) wish.2 } :=
  if_neg fun refused => Bool.false_ne_true (free.symm.trans (Bool.and_eq_true_iff.1 refused).2)

/-- Wishes for locked names add warnings, the others bindings. -/
theorem foldl_override {locked : List String} (held : ∀ name ∈ locked, run.scope.contains name)
    (wishes : List (String × String)) :
    wishes.foldl (override locked) run =
      { run with
        scope := bindAll run.scope (wishes.filterMap (wishBinding? run.catalog locked))
        warnings := run.warnings ++
          ((wishes.map (spelled run.catalog ·.1)).filter locked.contains).map
            .propertyNotOverridable } := by
  induction wishes generalizing run with
  | nil =>
    rw [List.map_nil, List.filter_nil, List.map_nil, List.append_nil]
    rfl
  | cons wish rest ih =>
    rw [List.foldl_cons, List.map_cons]
    cases kept : locked.contains (spelled run.catalog wish.1) with
    | true =>
      have known := held _ (List.contains_iff_mem.1 kept)
      have none : wishBinding? run.catalog locked wish = none := if_pos kept
      rw [override_of_locked known kept, List.filter_cons_of_pos kept,
        List.filterMap_cons_none none, List.map_cons]
      refine Eq.trans (ih ?_) ?_
      · exact held
      · rw [List.append_assoc]
        rfl
    | false =>
      have some : wishBinding? run.catalog locked wish =
        some (spelled run.catalog wish.1, wish.2) := if_neg (Bool.not_eq_true _ ▸ kept)
      rw [override_of_free kept, List.filter_cons_of_neg (Bool.not_eq_true _ ▸ kept),
        List.filterMap_cons_some some]
      exact ih fun name member => contains_set (held name member)

theorem contains_of_locked (scope : Property.Scope) (locked : run.Locked name) :
    (bindAll scope run.declaredBindings).contains name := by
  obtain ⟨property, member, rfl, -⟩ := locked
  refine contains_bindAll (.inl ?_)
  rw [declaredBindings, List.map_map]
  exact List.mem_map_of_mem member

/-- The run with the bindings of the declarations and then those of the request, and with a warning
for each key that stands for a locked name. -/
def built (run : Run) : Run :=
  { run with
    scope := bindAll run.scope
      (run.declaredBindings ++ run.request.properties.toList.filterMap run.wish?)
    warnings := run.warnings ++ run.refused.map .propertyNotOverridable
    stage := .propertiesBuilt }

theorem buildProperties_eq (reached : run.stage = .conditionsEvaluated) :
    buildProperties run = (.ok (), run.built) := by
  have wishes : wishBinding? run.catalog (lockedNames run.applied) = run.wish? := by
    funext wish
    simp only [wishBinding?, wish?, spelled_eq_target, contains_lockedNames_applied,
      decide_eq_true_iff]
  have refusals : (run.request.properties.toList.map (spelled run.catalog ·.1)).filter
      (lockedNames run.applied).contains = run.refused := by
    simp only [spelled_eq_target, funext (run.contains_lockedNames_applied), refused,
      NameMap.names, NameMap.toList, List.map_map, Function.comp_def]
  have declares : run.applied.foldl (fun scope property => scope.set property.name property.value)
      run.scope = bindAll run.scope run.declaredBindings := by
    rw [bindAll, declaredBindings, List.foldl_map]
  rw [buildProperties, Attempt.run_bind, expect_eq_ok_iff.2 ⟨reached, rfl⟩]
  dsimp only
  rw [Attempt.run_modify, activeProperties_eq, declares, foldl_override, wishes, refusals]
  · rw [built, bindAll, bindAll, bindAll, List.foldl_append]
  · intro name member
    refine contains_of_locked _ (of_decide_eq_true ?_)
    rw [← contains_lockedNames_applied]
    exact List.contains_iff_mem.2 member

/-! ## Values -/

theorem get_set (scope : Property.Scope) (name value other : String) :
    (scope.set name value).get other = if other = name then value else scope.get other := by
  rw [Property.Scope.get, Property.Scope.get, Property.Scope.set, List.findSome?_cons,
    List.findSome?_cons, NameMap.get?_insert]
  rcases eq_or_ne other name with rfl | apart
  · rw [if_pos rfl, if_pos rfl]
    rfl
  · rw [if_neg apart, if_neg apart]

/-- The last binding of a name counts. -/
theorem get_bindAll (scope : Property.Scope) (bindings : List (String × String)) (name : String) :
    (bindAll scope bindings).get name =
      ((bindings.filter (·.1 = name)).getLast?.map Prod.snd).getD (scope.get name) := by
  induction bindings using List.reverseRecOn with
  | nil => rfl
  | append_singleton bindings last ih =>
    rw [bindAll, List.foldl_concat, ← bindAll, get_set, List.filter_append]
    rcases eq_or_ne name last.1 with rfl | apart
    · have kept : [last].filter (·.1 = last.1) = [last] := by simp
      rw [if_pos rfl, kept, List.getLast?_concat]
      rfl
    · have dropped : [last].filter (·.1 = name) = [] := by simp [apart.symm]
      rw [if_neg apart, dropped, List.append_nil]
      exact ih

/-- A key binds a name if it stands for it and the name is not locked. -/
theorem filter_wish? (run : Run) (name : String) (wish : String × String) :
    (run.wish? wish).filter (·.1 = name) =
      if run.target wish.1 = name ∧ ¬ run.Locked name then some (name, wish.2) else none := by
  rcases eq_or_ne (run.target wish.1) name with rfl | apart
  · rw [wish?]
    split <;> simp [*]
  · rw [wish?]
    split <;> simp [apart]

theorem filter_wishes (run : Run) (name : String) (wishes : List (String × String)) :
    (wishes.filterMap run.wish?).filter (·.1 = name) =
      if run.Locked name then [] else
        (wishes.filter (run.target ·.1 = name)).map fun wish => (name, wish.2) := by
  simp only [List.filter_filterMap, filter_wish?]
  split
  · rename_i locked
    simp [locked]
  · rename_i free
    rw [← List.filterMap_eq_map, List.filterMap_filter]
    simp [free]

/-- What the request asks for counts unless the name is locked, and else the last declaration. -/
theorem get_built (run : Run) (name : String) :
    run.built.scope.get name =
      ((if run.Locked name then none else run.asked? name).or (run.declared? name)).getD
        (run.scope.get name) := by
  have declares : ((run.declaredBindings.filter (·.1 = name)).getLast?).map Prod.snd =
      run.declared? name := by
    rw [declaredBindings, List.filter_map, List.getLast?_map, Option.map_map]
    rfl
  have asks : ((((run.request.properties.toList.filterMap run.wish?).filter
      (·.1 = name)).getLast?).map Prod.snd) =
        if run.Locked name then none else run.asked? name := by
    rw [filter_wishes]
    split
    · rfl
    · rw [List.getLast?_map, Option.map_map]
      rfl
  show (bindAll run.scope _).get name = _
  rw [get_bindAll, List.filter_append, List.getLast?_append, Option.map_or, declares, asks]

theorem exists_declared (run : Run) (applies : ∃ property ∈ run.applied, property.name = name) :
    ∃ value, run.declared? name = some value := by
  obtain ⟨property, member, same⟩ := applies
  have kept : property ∈ run.applied.filter (·.name = name) :=
    List.mem_filter.2 ⟨member, decide_eq_true same⟩
  exact ⟨_, congrArg _ (List.getLast?_eq_some_getLast (List.ne_nil_of_mem kept))⟩

/-- A name for which no request counts gets its declared value. -/
theorem get_built_of_none (run : Run) (applies : ∃ property ∈ run.applied, property.name = name)
    (unasked : run.Locked name ∨ run.asked? name = none) :
    run.declared? name = some (run.built.scope.get name) := by
  obtain ⟨value, declares⟩ := run.exists_declared applies
  have nothing : (if run.Locked name then none else run.asked? name) = none := by
    rcases unasked with locked | none
    · exact if_pos locked
    · rw [none, ite_self]
  rw [get_built, nothing, declares]
  rfl

/-! ## Locked names -/

/-- Requests that agree on the keys that stand for a name ask for the same value of it. -/
theorem asked?_congr {first second : NameMap String}
    (agree : ∀ key, run.target key = name → first.get? key = second.get? key) :
    (run.asking first).asked? name = (run.asking second).asked? name := by
  have same : first.only (run.target · = name) = second.only (run.target · = name) :=
    NameMap.only_congr fun key stands => agree key (of_decide_eq_true stands)
  exact congrArg (fun wishes => wishes.toList.getLast?.map Prod.snd) same

/-- Whatever two requests ask for, the step succeeds; all locked names get the value of their last
applied declaration; there is one warning for each key that stands for a locked name, in the order of
the keys; and requests that agree on the keys that stand for a name give it the same value. -/
theorem buildProperties_keeps_locked (run : Run) (reached : run.stage = .conditionsEvaluated)
    (first second : NameMap String) :
    ∃ one two : Run, buildProperties (run.asking first) = (.ok (), one) ∧
      buildProperties (run.asking second) = (.ok (), two) ∧
      (∀ name, run.Locked name → run.declared? name = some (one.scope.get name) ∧
        one.scope.get name = two.scope.get name) ∧
      one.warnings = run.warnings ++
        ((first.names.map run.target).filter (run.Locked ·)).map .propertyNotOverridable ∧
      ∀ name, (∀ key, run.target key = name → first.get? key = second.get? key) →
        one.scope.get name = two.scope.get name := by
  refine ⟨_, _, buildProperties_eq reached, buildProperties_eq reached, ?_, rfl, ?_⟩
  · intro name locked
    have applies : ∃ property ∈ run.applied, property.name = name := by
      obtain ⟨property, member, same, -⟩ := locked
      exact ⟨property, member, same⟩
    have keeps : ∀ overrides,
        run.declared? name = some ((run.asking overrides).built.scope.get name) :=
      fun overrides => (run.asking overrides).get_built_of_none applies (.inl locked)
    exact ⟨keeps first, Option.some.inj ((keeps first).symm.trans (keeps second))⟩
  · intro name agree
    rw [get_built, get_built, asked?_congr agree]
    rfl

/-- A run whose declared properties are these, with one configuration, which is not true. -/
def exDeclaring (properties : List DeclaredProperty) : Run :=
  { start ⟨"t", "o", [], [], .empty, .yes⟩ "" with
    stage := .conditionsEvaluated
    catalog := { Catalog.empty with
      configurations := .ofList [("loud", ⟨"loud", "", false, 1⟩)], properties }
    conditions := Condition.Table.empty.insert "loud" (.resolved false) }

/-- A locked property, declared behind another spelling of its name. -/
def exLocked : Run :=
  exDeclaring [⟨"A", "", "1", none, true, 1⟩, ⟨"a", "", "2", none, false, 1⟩,
    ⟨"a", "", "3", none, true, 1⟩, ⟨"b", "", "4", none, true, 1⟩]

theorem exLocked_kept : ∃ one two : Run,
    buildProperties (exLocked.asking (.ofList [("a", "x"), ("A", "y"), ("b", "z")])) =
      (.ok (), one) ∧
    buildProperties (exLocked.asking (.ofList [("b", "z")])) = (.ok (), two) ∧
    one.scope.get "a" = "3" ∧ two.scope.get "a" = "3" ∧
    one.scope.get "b" = two.scope.get "b" ∧
    one.warnings = [.propertyNotOverridable "a", .propertyNotOverridable "a"] := by
  obtain ⟨one, two, builds, also, locks, warns, agrees⟩ := buildProperties_keeps_locked exLocked rfl
    (.ofList [("a", "x"), ("A", "y"), ("b", "z")]) (.ofList [("b", "z")])
  obtain ⟨declares, same⟩ := locks "a" (by decide)
  have value : "3" = one.scope.get "a" := Option.some.inj declares
  refine ⟨one, two, builds, also, value.symm, same ▸ value.symm, agrees "b" ?_, ?_⟩
  · intro key stands
    have notLower : key ≠ "a" := by
      rintro rfl
      exact absurd stands (by decide +kernel)
    have notUpper : key ≠ "A" := by
      rintro rfl
      exact absurd stands (by decide +kernel)
    simp [NameMap.ofList, notLower, notUpper]
  · rw [warns]
    decide +kernel

/-! ## Keys that count -/

theorem sameButCase_target (run : Run) (key : String) : SameButCase (run.target key) key := by
  unfold target
  cases last : (run.catalog.properties.filter (SameButCase ·.name key)).getLast? with
  | none => exact rfl
  | some property => exact of_decide_eq_true (List.mem_filter.1 (List.mem_of_getLast? last)).2

/-- A request that asks for a value of an applied property that is not locked, with no other key of
the same spelling but for case, gets it if the last declaration of that name but for case has this
spelling. If it has another one, then the property keeps its declared value. -/
theorem buildProperties_overrides (run : Run) (reached : run.stage = .conditionsEvaluated)
    (asks : run.request.properties.get? key = some value)
    (applies : ∃ property ∈ run.applied, property.name = key) (free : ¬ run.Locked key)
    (only : ∀ other, run.request.properties.contains other → SameButCase other key → other = key) :
    ∃ after, buildProperties run = (.ok (), after) ∧
      (run.target key = key → after.scope.get key = value) ∧
      (run.target key ≠ key → run.declared? key = some (after.scope.get key)) := by
  -- No other key of the request stands for the name.
  have alone : ∀ wish ∈ run.request.properties.toList, run.target wish.1 = key →
      wish = (key, value) := by
    rintro ⟨other, wanted⟩ member stands
    have found := NameMap.get?_eq_some_iff.2 member
    have same : SameButCase other key := by
      rw [← stands]
      exact (run.sameButCase_target other).symm
    obtain rfl := only other (NameMap.contains_iff.2 ⟨wanted, found⟩) same
    rw [Option.some.inj (found.symm.trans asks)]
  refine ⟨_, buildProperties_eq reached, ?_, ?_⟩
  · intro itself
    have kept : (key, value) ∈ run.request.properties.toList.filter (run.target ·.1 = key) :=
      List.mem_filter.2 ⟨NameMap.get?_eq_some_iff.1 asks, decide_eq_true itself⟩
    have asked : run.asked? key = some value := by
      cases last : (run.request.properties.toList.filter (run.target ·.1 = key)).getLast? with
      | none => exact absurd kept (List.getLast?_eq_none_iff.1 last ▸ List.not_mem_nil)
      | some wish =>
        obtain ⟨member, stands⟩ := List.mem_filter.1 (List.mem_of_getLast? last)
        rw [asked?, last, alone wish member (of_decide_eq_true stands)]
        rfl
    rw [get_built, if_neg free, asked]
    rfl
  · intro elsewhere
    refine run.get_built_of_none applies (.inr ?_)
    have none : run.request.properties.toList.filter (run.target ·.1 = key) = [] := by
      refine List.filter_eq_nil_iff.2 fun wish member stands => elsewhere ?_
      have same := alone wish member (of_decide_eq_true stands)
      rw [same] at stands
      exact of_decide_eq_true stands
    rw [asked?, none]
    rfl

/-- A property that is declared for all outputs, and in another spelling or the same one for a
configuration that is not true. -/
def exQuiet (spelling : String) : Run :=
  exDeclaring [⟨"name", "", "world", none, true, 1⟩, ⟨spelling, "", "WORLD", some "loud", true, 1⟩]
    |>.asking (.ofList [("name", "there")])

/-- The request of the run asks for no other key than the one that is declared. -/
theorem exQuiet_only {spelling other : String}
    (contains : (exQuiet spelling).request.properties.contains other) : other = "name" := by
  obtain ⟨value, found⟩ := NameMap.contains_iff.1 contains
  exact congrArg Prod.fst (List.mem_singleton.1 (NameMap.get?_eq_some_iff.1 found))

theorem exQuiet_overridden : ∃ after, buildProperties (exQuiet "name") = (.ok (), after) ∧
    after.scope.get "name" = "there" := by
  have asks : (exQuiet "name").request.properties.get? "name" = some "there" := by decide
  obtain ⟨after, builds, gets, -⟩ := buildProperties_overrides (exQuiet "name") rfl asks
    (by decide) (by decide) fun other contains _ => exQuiet_only contains
  exact ⟨after, builds, gets (by decide +kernel)⟩

/-- If the configuration spells the name differently, then the request does not change it. -/
theorem exQuiet_not_overridden :
    (exQuiet "NAME").stage = .conditionsEvaluated ∧
    (exQuiet "NAME").request.properties.get? "name" = some "there" ∧
    (∃ property ∈ (exQuiet "NAME").applied, property.name = "name") ∧
    ¬ (exQuiet "NAME").Locked "name" ∧
    (∀ other, (exQuiet "NAME").request.properties.contains other →
      SameButCase other "name" → other = "name") ∧
    ∃ after, buildProperties (exQuiet "NAME") = (.ok (), after) ∧
      after.scope.get "name" = "world" ∧ after.scope.get "name" ≠ "there" := by
  have value : (exQuiet "NAME").built.scope.get "name" = "world" := by decide +kernel
  have defined : (∃ property ∈ (exQuiet "NAME").applied, property.name = "name") ∧
      ¬ (exQuiet "NAME").Locked "name" := by
    decide +kernel
  exact ⟨rfl, by decide +kernel, defined.1, defined.2, fun other contains _ => exQuiet_only contains,
    (exQuiet "NAME").built, buildProperties_eq rfl, value, value.trans_ne (by decide)⟩

end Run

end ConfigTemplate
