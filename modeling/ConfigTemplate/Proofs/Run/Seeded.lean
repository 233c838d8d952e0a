import ConfigTemplate.Proofs.Run.Failure
import ConfigTemplate.Proofs.Run.Seeding
import Mathlib.Data.List.Perm.Basic

/-!
# Seeding an empty table

Seeding is described by the catalog and the request alone: the request is refused over the first
name that no configuration has, every configuration gets the value that is asked for, and every
derived condition and rule gets an entry of its own, or else seeding fails. How the names of a
request are ordered, repeated and spelt does not matter as long as their lower-case forms are the
same.

Results:
1. `requestedValues_or_unknown`: which requests are refused.
2. `addsFormulas_iff`: when formulas can be added to a table.
3. `seedConditions_exact`: what seeding does with a run that has no conditions yet.
-/

namespace ConfigTemplate

/-- The names in a request: those to select, then those to deselect. -/
def Request.names (request : Request) : List String := request.selected ++ request.deselected

/-- A configuration has the name, but for case. -/
def Catalog.Offers (catalog : Catalog) (name : String) : Prop :=
  ∃ configuration ∈ catalog.configurations.values,
    Text.lowerCase configuration.name = Text.lowerCase name

/-- The names of all conditions that a catalog declares. -/
def Catalog.conditionNames (catalog : Catalog) : List String :=
  catalog.configurations.values.map Configuration.name ++
    (catalog.defines ++ catalog.rules).map NamedFormula.name

/-- The lists hold the same names, whatever their order, their number and their case. -/
def SameNames (first second : List String) : Prop :=
  ∀ key, key ∈ first.map Text.lowerCase ↔ key ∈ second.map Text.lowerCase

namespace Run

variable {tree : Document.Tree} {catalog : Catalog} {request other : Request}
  {requested found : NameMap Bool} {run after : Run} {name : String} {cause : RunError}
  {table : Condition.Table} {named : List NamedFormula}

/-! ## Names of configurations -/

theorem Keyed.offers_iff (keyed : Keyed catalog) :
    catalog.Offers name ↔ ∃ configuration, catalog.configuration? name = some configuration := by
  constructor
  · rintro ⟨configuration, member, same⟩
    have known : Knows catalog configuration := keyed.knows member
    rw [Knows, same] at known
    exact ⟨configuration, known⟩
  · rintro ⟨configuration, found⟩
    exact ⟨configuration, NameMap.mem_values_iff.2 ⟨_, found⟩, (keyed _ _ found).symm⟩

theorem Keyed.isNone_iff (keyed : Keyed catalog) :
    (catalog.configuration? name).isNone ↔ ¬ catalog.Offers name := by
  rw [keyed.offers_iff, ← Option.isSome_iff_exists, Option.not_isSome_iff_eq_none,
    Option.isNone_iff_eq_none]

theorem mentions_iff {names : List String} :
    mentions names name ↔ Text.lowerCase name ∈ names.map Text.lowerCase := by
  simp [mentions, List.mem_map]

theorem mentions_congr {first second : List String} (same : SameNames first second) :
    mentions first name = mentions second name := by
  rw [Bool.eq_iff_iff, mentions_iff, mentions_iff]
  exact same _

/-! ## Requests that are refused -/

/-- The first name in a list that no configuration has. -/
def firstUnknown (catalog : Catalog) (names : List String) : Option String :=
  names.find? fun name => (catalog.configuration? name).isNone

/-- Why a request with the name is refused. -/
def unknownCause (catalog : Catalog) (name : String) : RunError :=
  .unknownConfiguration name
    (suggestions name (catalog.configurations.values.map Configuration.name))

theorem addAll_or_unknown (catalog : Catalog) (wishes : List (String × Bool))
    (found : NameMap Bool) :
    match firstUnknown catalog (wishes.map Prod.fst) with
    | some name => wishes.foldlM (addRequested catalog) found = .error (unknownCause catalog name)
    | none => ∃ requested, wishes.foldlM (addRequested catalog) found = .ok requested := by
  induction wishes generalizing found with
  | nil => exact ⟨found, rfl⟩
  | cons wish rest ih =>
    rw [List.map_cons, firstUnknown, List.find?_cons, List.foldlM_cons, addRequested]
    cases catalog.configuration? wish.1 with
    | none => rfl
    | some configuration => exact ih (found.insert configuration.name wish.2)

/-- A request is refused over the first name that no configuration has, and over nothing else. -/
theorem requestedValues_or_unknown (catalog : Catalog) (request : Request) :
    match firstUnknown catalog request.names with
    | some name => requestedValues catalog request = .error (unknownCause catalog name)
    | none => ∃ requested, requestedValues catalog request = .ok requested := by
  have all := addAll_or_unknown catalog
    (request.selected.map (·, true) ++ request.deselected.map (·, false)) .empty
  have same : (request.selected.map (·, true) ++ request.deselected.map (·, false)).map Prod.fst =
      request.names := by
    rw [List.map_append, List.map_map, List.map_map]
    exact congr (congrArg _ (List.map_id _)) (List.map_id _)
  rwa [same] at all

theorem Keyed.firstUnknown_eq_some (keyed : Keyed catalog) {names : List String} :
    firstUnknown catalog names = some name ↔ ∃ before behind, names = before ++ name :: behind ∧
      (∀ earlier ∈ before, catalog.Offers earlier) ∧ ¬ catalog.Offers name := by
  have known : ∀ name, (!(catalog.configuration? name).isNone) = true ↔ catalog.Offers name := by
    intro name
    rw [Bool.not_eq_true', Bool.eq_false_iff, ne_eq, keyed.isNone_iff, not_not]
  simp only [firstUnknown, List.find?_eq_some_iff_append, keyed.isNone_iff, known]
  constructor
  · rintro ⟨absent, before, behind, split, offered⟩
    exact ⟨before, behind, split, offered, absent⟩
  · rintro ⟨before, behind, split, offered, absent⟩
    exact ⟨absent, before, behind, split, offered⟩

theorem Keyed.firstUnknown_eq_none (keyed : Keyed catalog) {names : List String} :
    firstUnknown catalog names = none ↔ ∀ name ∈ names, catalog.Offers name := by
  rw [firstUnknown, List.find?_eq_none]
  refine forall₂_congr fun name _ => ?_
  rw [keyed.isNone_iff, not_not]

/-! ## The configurations -/

/-- A table with the configurations of a catalog, as a request chooses their values. -/
def chosen (catalog : Catalog) (request : Request) : Condition.Table :=
  catalog.configurations.values.foldl (fun table configuration =>
    table.insertConstant configuration.name
      (request.choice configuration.name configuration.selected)) .empty

theorem Keyed.seeds_chosen (keyed : Keyed catalog)
    (requests : requestedValues catalog request = .ok requested) :
    catalog.configurations.values.foldl (seedConfiguration requested) .empty =
      chosen catalog request := by
  refine List.foldl_ext _ _ _ fun table configuration member => ?_
  rw [seedConfiguration, getD_requestedValues keyed (keyed.knows member) requests]

/-- The values that are chosen depend on the names in a request only. -/
theorem chosen_congr (selected : SameNames other.selected request.selected)
    (deselected : SameNames other.deselected request.deselected) :
    chosen catalog other = chosen catalog request := by
  refine List.foldl_ext _ _ _ fun table configuration _ => ?_
  rw [Request.choice, Request.choice, mentions_congr selected, mentions_congr deselected]

/-! ## The formulas -/

theorem seedFormula_eq {derived : NamedFormula} {formula : Formula}
    (free : run.conditions.contains derived.name = false)
    (parses : derived.formula = .ok formula) : seedFormula derived run =
      (.ok (), { run with conditions := run.conditions.insert derived.name (.pending formula) }) := by
  rw [seedFormula, Attempt.run_get_bind, free, parses]
  rfl

theorem forM_seedFormula_cons (first : NamedFormula) (rest : List NamedFormula) (run : Run) :
    (first :: rest).forM seedFormula run =
      match seedFormula first run with
      | (.ok _, middle) => rest.forM seedFormula middle
      | (.error cause, middle) => (.error cause, middle) := by
  show (seedFormula first >>= fun _ => rest.forM seedFormula : StepM Unit) run = _
  rw [Attempt.run_bind]
  rcases seedFormula first run with ⟨cause | value, middle⟩ <;> rfl

theorem seedFormula_by_table (derived : NamedFormula) (table : Condition.Table) :
    ∃ result left, ∀ run : Run, run.conditions = table →
      seedFormula derived run = (result, { run with conditions := left }) := by
  cases known : table.contains derived.name with
  | true =>
    refine ⟨.error (.duplicateCondition derived.name derived.line), table, ?_⟩
    rintro run rfl
    rw [seedFormula, Attempt.run_get_bind, known]
    rfl
  | false =>
    cases parses : derived.formula with
    | error why =>
      refine ⟨.error (.malformedFormula derived.name derived.line why), table, ?_⟩
      rintro run rfl
      rw [seedFormula, Attempt.run_get_bind, known, parses]
      rfl
    | ok formula =>
      refine ⟨.ok (), table.insert derived.name (.pending formula), ?_⟩
      rintro run rfl
      exact seedFormula_eq known parses

/-- What adding formulas comes to, and the table that it leaves, depend on the table only. -/
theorem forM_seedFormula_by_table (named : List NamedFormula) (table : Condition.Table) :
    ∃ result left, ∀ run : Run, run.conditions = table →
      named.forM seedFormula run = (result, { run with conditions := left }) := by
  induction named generalizing table with
  | nil =>
    refine ⟨.ok (), table, ?_⟩
    rintro run rfl
    rfl
  | cons first rest ih =>
    obtain ⟨answer, middle, step⟩ := seedFormula_by_table first table
    cases answer with
    | error cause =>
      refine ⟨.error cause, middle, fun run same => ?_⟩
      rw [forM_seedFormula_cons, step run same]
    | ok value =>
      obtain ⟨result, left, further⟩ := ih middle
      refine ⟨result, left, fun run same => ?_⟩
      rw [forM_seedFormula_cons, step run same]
      exact further { run with conditions := middle } rfl

/-- Adding formulas takes no entry out of the table and changes none, also when it fails. -/
theorem forM_seedFormula_retains {entry : Condition.Entry}
    (held : run.conditions.entries.get? name = some entry) :
    (named.forM seedFormula run).2.conditions.entries.get? name = some entry := by
  induction named generalizing run with
  | nil => exact held
  | cons first rest ih =>
    rw [forM_seedFormula_cons]
    rcases step : seedFormula first run with ⟨cause | ⟨⟩, middle⟩
    · obtain ⟨rfl, -⟩ := seedFormula_eq_error step
      exact held
    · obtain ⟨free, formula, -, rfl⟩ := seedFormula_eq_ok step
      have apart : name ≠ first.name := by
        rintro rfl
        rw [Condition.Table.contains_iff.2 ⟨entry, held⟩] at free
        cases free
      refine ih ?_
      rw [Condition.Table.insert, NameMap.get?_insert, if_neg apart, held]

theorem contains_insert_eq_false {other : String} {entry : Condition.Entry} :
    (table.insert name entry).contains other = false ↔
      other ≠ name ∧ table.contains other = false := by
  rw [← Bool.not_eq_true, ← Bool.not_eq_true, contains_insert, not_or]

/-- Formulas can be added under names that are distinct and not in the table. -/
theorem addsFormulas_iff : (∃ filled, AddsFormulas table named filled) ↔
    (∀ derived ∈ named, ∃ formula, derived.formula = .ok formula) ∧
      (named.map NamedFormula.name).Nodup ∧
      ∀ derived ∈ named, table.contains derived.name = false := by
  induction named generalizing table with
  | nil => simpa using ⟨table, .nil⟩
  | cons first rest ih =>
    rw [List.forall_mem_cons, List.map_cons, List.nodup_cons, List.forall_mem_cons]
    constructor
    · rintro ⟨filled, adds⟩
      cases adds with
      | @cons _ _ _ _ formula free parses further =>
        obtain ⟨others, distinct, fresh⟩ := ih.1 ⟨filled, further⟩
        refine ⟨⟨⟨formula, parses⟩, others⟩, ⟨?_, distinct⟩, free, fun derived member =>
          (contains_insert_eq_false.1 (fresh derived member)).2⟩
        intro again
        obtain ⟨derived, member, same⟩ := List.mem_map.1 again
        exact (contains_insert_eq_false.1 (fresh derived member)).1 same
    · rintro ⟨⟨⟨formula, parses⟩, others⟩, ⟨apart, distinct⟩, free, fresh⟩
      obtain ⟨filled, further⟩ := (@ih (table.insert first.name (.pending formula))).2
        ⟨others, distinct, fun derived member => contains_insert_eq_false.2
          ⟨fun same => apart (same ▸ List.mem_map_of_mem member), fresh derived member⟩⟩
      exact ⟨filled, .cons free parses further⟩

theorem forM_seedFormula_of_adds {filled : Condition.Table}
    (adds : AddsFormulas table named filled) (same : run.conditions = table) :
    named.forM seedFormula run = (.ok (), { run with conditions := filled }) := by
  induction adds generalizing run with
  | nil =>
    subst same
    rfl
  | cons free parses further ih =>
    subst same
    rw [forM_seedFormula_cons, seedFormula_eq free parses]
    exact ih rfl

/-! ## The names in the table -/

theorem nodup_names (table : Condition.Table) : table.names.Nodup :=
  List.pairwise_map.2 (table.entries.increasing.imp fun less => String.ne_of_lt less)

/-- Configurations of different keys have different names. -/
theorem Keyed.nodup (keyed : Keyed catalog) :
    (catalog.configurations.values.map Configuration.name).Nodup := by
  rw [NameMap.values, List.map_map]
  refine List.pairwise_map.2 (catalog.configurations.increasing.imp_of_mem ?_)
  intro first second inFirst inSecond less same
  rw [keyed first.1 first.2 (NameMap.get?_eq_some_iff.2 inFirst),
    keyed second.1 second.2 (NameMap.get?_eq_some_iff.2 inSecond)] at less
  exact String.lt_irrefl _ (congrArg Text.lowerCase same ▸ less)

theorem Keyed.get?_chosen (keyed : Keyed catalog)
    (requests : requestedValues catalog request = .ok requested) {configuration : Configuration}
    (member : configuration ∈ catalog.configurations.values) :
    (chosen catalog request).entries.get? configuration.name =
      some (.pending (.constant (request.choice configuration.name configuration.selected))) := by
  rw [← keyed.seeds_chosen requests, get?_foldl_seedConfiguration keyed.eq_of_name]
  refine .inl ⟨configuration, member, rfl, ?_⟩
  rw [constantEntry, getD_requestedValues keyed (keyed.knows member) requests]

theorem Keyed.contains_chosen (keyed : Keyed catalog)
    (requests : requestedValues catalog request = .ok requested) :
    (chosen catalog request).contains name ↔
      name ∈ catalog.configurations.values.map Configuration.name := by
  rw [← keyed.seeds_chosen requests, contains_foldl_seedConfiguration, List.mem_map, or_iff_left]
  exact Bool.false_ne_true

/-- The names of a catalog are distinct if no formula has the name of a configuration or of another
formula. -/
theorem Keyed.nodup_conditionNames (keyed : Keyed catalog)
    (requests : requestedValues catalog request = .ok requested) :
    catalog.conditionNames.Nodup ↔
      ((catalog.defines ++ catalog.rules).map NamedFormula.name).Nodup ∧
        ∀ derived ∈ catalog.defines ++ catalog.rules,
          (chosen catalog request).contains derived.name = false := by
  have taken : ∀ derived : NamedFormula, (chosen catalog request).contains derived.name = false ↔
      derived.name ∉ catalog.configurations.values.map Configuration.name := by
    intro derived
    rw [← keyed.contains_chosen requests, Bool.not_eq_true]
  simp only [taken]
  rw [Catalog.conditionNames, List.nodup_append]
  constructor
  · rintro ⟨-, distinct, apart⟩
    exact ⟨distinct, fun derived member known =>
      apart _ known _ (List.mem_map_of_mem member) rfl⟩
  · rintro ⟨distinct, fresh⟩
    refine ⟨keyed.nodup, distinct, ?_⟩
    rintro known isKnown new isNew rfl
    obtain ⟨derived, member, rfl⟩ := List.mem_map.1 isNew
    exact fresh derived member isKnown

/-- Formulas that have been added are in the table together with what was there before. -/
theorem contains_of_adds {filled : Condition.Table} (adds : AddsFormulas table named filled) :
    filled.contains name ↔ table.contains name ∨ name ∈ named.map NamedFormula.name := by
  simp only [Condition.Table.contains_iff, get?_of_addsFormulas adds, exists_or, List.mem_map]
  refine or_congr_right ⟨?_, ?_⟩
  · rintro ⟨entry, derived, member, same, -⟩
    exact ⟨derived, member, same⟩
  · rintro ⟨derived, member, same⟩
    obtain ⟨formula, parses⟩ := formula_of_addsFormulas adds derived member
    exact ⟨_, derived, member, same, formula, parses, rfl⟩

/-! ## Seeding -/

theorem seedConditions_refused (reached : run.stage = .objectsExtracted)
    (refused : requestedValues run.catalog run.request = .error cause) :
    seedConditions run = (.error cause, run) := by
  rw [seedConditions, expect_bind_eq _ reached, Attempt.run_get_bind, Attempt.run_bind, refused]
  rfl

theorem seedConditions_chosen (keyed : Keyed run.catalog) (reached : run.stage = .objectsExtracted)
    (fresh : run.conditions = .empty)
    (requests : requestedValues run.catalog run.request = .ok requested) :
    seedConditions run =
      ((run.catalog.defines ++ run.catalog.rules).forM seedFormula >>= fun _ =>
        reach .conditionsSeeded : StepM Unit)
      { run with conditions := chosen run.catalog run.request } := by
  rw [seedConditions_at reached requests, fresh, keyed.seeds_chosen requests]

theorem requests_of_offers (keyed : Keyed catalog)
    (offered : ∀ name ∈ request.names, catalog.Offers name) :
    ∃ requested, requestedValues catalog request = .ok requested := by
  have outcome := requestedValues_or_unknown catalog request
  rwa [keyed.firstUnknown_eq_none.2 offered] at outcome

theorem offers_congr {first second : String} (same : Text.lowerCase first = Text.lowerCase second) :
    catalog.Offers first ↔ catalog.Offers second := by
  rw [Catalog.Offers, Catalog.Offers, same]

theorem forall_offers_congr {first second : List String} (same : SameNames first second) :
    (∀ name ∈ first, catalog.Offers name) ↔ ∀ name ∈ second, catalog.Offers name := by
  have passes : ∀ {first second : List String}, SameNames first second →
      (∀ name ∈ first, catalog.Offers name) → ∀ name ∈ second, catalog.Offers name := by
    intro first second same offered name member
    obtain ⟨alike, inFirst, keys⟩ :=
      List.mem_map.1 ((same _).2 (List.mem_map_of_mem member))
    exact (offers_congr keys).1 (offered alike inFirst)
  exact ⟨passes same, passes fun key => (same key).symm⟩

/-- With all names known, what seeding comes to depends on the catalog and on what is chosen. -/
theorem seedConditions_by_table (catalog : Catalog) (table : Condition.Table) :
    ∃ result left, ∀ (run : Run) (requested : NameMap Bool), Keyed run.catalog →
      run.stage = .objectsExtracted → run.conditions = .empty →
      requestedValues run.catalog run.request = .ok requested → run.catalog = catalog →
      chosen run.catalog run.request = table →
      (seedConditions run).1 = result ∧ (seedConditions run).2.conditions = left := by
  obtain ⟨result, left, adds⟩ :=
    forM_seedFormula_by_table (catalog.defines ++ catalog.rules) table
  refine ⟨result, left, ?_⟩
  rintro run requested keyed reached fresh requests rfl rfl
  rw [seedConditions_chosen keyed reached fresh requests, Attempt.run_bind, adds _ rfl]
  cases result <;> exact ⟨rfl, rfl⟩

theorem adds_of_seedConditions (keyed : Keyed run.catalog) (fresh : run.conditions = .empty)
    (step : seedConditions run = (.ok (), after)) :
    ∃ requested filled, requestedValues run.catalog run.request = .ok requested ∧
      AddsFormulas (chosen run.catalog run.request) (run.catalog.defines ++ run.catalog.rules)
        filled ∧ after = { run with conditions := filled, stage := .conditionsSeeded } := by
  obtain ⟨requested, filled, requests, adds, same⟩ := seedConditions_eq_ok step
  rw [fresh, keyed.seeds_chosen requests] at adds
  exact ⟨requested, filled, requests, adds, same⟩

/-- The seeded table has one entry for every configuration, derived condition and rule. -/
theorem names_perm_of_seedConditions (keyed : Keyed run.catalog)
    (fresh : run.conditions = .empty) (step : seedConditions run = (.ok (), after)) :
    after.conditions.names.Perm run.catalog.conditionNames := by
  obtain ⟨requested, filled, requests, adds, rfl⟩ := adds_of_seedConditions keyed fresh step
  have distinct := (keyed.nodup_conditionNames requests).2 (addsFormulas_iff.1 ⟨filled, adds⟩).2
  refine (List.perm_ext_iff_of_nodup (nodup_names filled) distinct).2 fun name => ?_
  rw [Catalog.conditionNames, List.mem_append, ← keyed.contains_chosen requests,
    ← contains_of_adds adds]
  exact NameMap.mem_names_iff

section Fresh

variable (keyed : Keyed run.catalog) (reached : run.stage = .objectsExtracted)
  (fresh : run.conditions = .empty)

include keyed reached

/-- Seeding refuses a request over the first name that no configuration has, before it adds
anything. -/
theorem seedConditions_eq_unknown {hints : List String} :
    seedConditions run = (.error (.unknownConfiguration name hints), after) ↔
      (∃ before behind, run.request.names = before ++ name :: behind ∧
        (∀ earlier ∈ before, run.catalog.Offers earlier) ∧ ¬ run.catalog.Offers name) ∧
      hints = suggestions name (run.catalog.configurations.values.map Configuration.name) ∧
      after = run := by
  rw [← keyed.firstUnknown_eq_some]
  have outcome := requestedValues_or_unknown run.catalog run.request
  cases first : firstUnknown run.catalog run.request.names with
  | some other =>
    rw [first] at outcome
    rw [seedConditions_refused reached outcome]
    constructor
    · intro same
      cases same
      exact ⟨rfl, rfl, rfl⟩
    · rintro ⟨same, rfl, rfl⟩
      cases same
      rfl
  | none =>
    rw [first] at outcome
    obtain ⟨requested, requests⟩ := outcome
    refine iff_of_false ?_ fun ⟨found, _⟩ => nomatch found
    rw [seedConditions_at reached requests]
    intro fails
    rcases Attempt.run_bind_eq_error_iff.1 fails with adds | ⟨_, _, -, last⟩
    · cases (forM_seedFormula_eq_error adds).1
    · cases last

theorem seedConditions_unchanged
    (refused : ¬ ∀ name ∈ run.request.names, run.catalog.Offers name) :
    (seedConditions run).2 = run := by
  have outcome := requestedValues_or_unknown run.catalog run.request
  cases first : firstUnknown run.catalog run.request.names with
  | some name =>
    rw [first] at outcome
    rw [seedConditions_refused reached outcome]
  | none => exact absurd (keyed.firstUnknown_eq_none.1 first) refused

include fresh

/-- Every configuration has the value that is chosen for it, also when a formula cannot be added. -/
theorem get?_seedConditions (offered : ∀ name ∈ run.request.names, run.catalog.Offers name)
    {configuration : Configuration}
    (member : configuration ∈ run.catalog.configurations.values) :
    (seedConditions run).2.conditions.entries.get? configuration.name =
      some (.pending (.constant
        (run.request.choice configuration.name configuration.selected))) := by
  obtain ⟨requested, requests⟩ := requests_of_offers keyed offered
  have held := keyed.get?_chosen requests member
  rw [seedConditions_chosen keyed reached fresh requests, Attempt.run_bind]
  have kept := @forM_seedFormula_retains
    { run with conditions := chosen run.catalog run.request } configuration.name
    (run.catalog.defines ++ run.catalog.rules) _ held
  rcases adds : (run.catalog.defines ++ run.catalog.rules).forM seedFormula
    { run with conditions := chosen run.catalog run.request } with ⟨cause | value, left⟩
  · rw [adds] at kept
    exact kept
  · rw [adds] at kept
    exact kept

/-- The order, the number and the case of the names in a request do not matter. -/
theorem seedConditions_congr (selected : SameNames other.selected run.request.selected)
    (deselected : SameNames other.deselected run.request.deselected) :
    (seedConditions { run with request := other }).2.conditions =
      (seedConditions run).2.conditions ∧
    ((∀ name ∈ run.request.names, run.catalog.Offers name) →
      (seedConditions { run with request := other }).1 = (seedConditions run).1) := by
  have alike : (∀ name ∈ other.names, run.catalog.Offers name) ↔
      ∀ name ∈ run.request.names, run.catalog.Offers name := by
    simp only [Request.names, List.forall_mem_append]
    exact and_congr (forall_offers_congr selected) (forall_offers_congr deselected)
  by_cases offered : ∀ name ∈ run.request.names, run.catalog.Offers name
  · obtain ⟨requested, requests⟩ := requests_of_offers keyed offered
    obtain ⟨otherRequested, otherRequests⟩ := requests_of_offers keyed (alike.2 offered)
    obtain ⟨result, left, answers⟩ :=
      seedConditions_by_table run.catalog (chosen run.catalog run.request)
    obtain ⟨answer, filled⟩ := answers run requested keyed reached fresh requests rfl rfl
    obtain ⟨otherAnswer, otherFilled⟩ := answers { run with request := other } otherRequested keyed
      reached fresh otherRequests rfl (chosen_congr selected deselected)
    exact ⟨otherFilled.trans filled.symm, fun _ => otherAnswer.trans answer.symm⟩
  · have mine := seedConditions_unchanged keyed reached offered
    have others := @seedConditions_unchanged { run with request := other } keyed reached
      (mt alike.1 offered)
    rw [mine, others]
    exact ⟨rfl, fun all => absurd all offered⟩

/-- If all names are known and all texts are formulas, then seeding fails only over two conditions
of one name. -/
theorem seedConditions_succeeds_iff
    (offered : ∀ name ∈ run.request.names, run.catalog.Offers name)
    (parses : ∀ derived ∈ run.catalog.defines ++ run.catalog.rules,
      ∃ formula, derived.formula = .ok formula) :
    (∃ after, seedConditions run = (.ok (), after)) ↔ run.catalog.conditionNames.Nodup := by
  obtain ⟨requested, requests⟩ := requests_of_offers keyed offered
  rw [keyed.nodup_conditionNames requests]
  constructor
  · rintro ⟨after, step⟩
    obtain ⟨_, filled, -, adds, -⟩ := adds_of_seedConditions keyed fresh step
    exact (addsFormulas_iff.1 ⟨filled, adds⟩).2
  · intro distinct
    obtain ⟨filled, adds⟩ := addsFormulas_iff.2 ⟨parses, distinct⟩
    rw [seedConditions_chosen keyed reached fresh requests, Attempt.run_bind,
      forM_seedFormula_of_adds adds rfl]
    exact ⟨_, rfl⟩

end Fresh

/-- What seeding does with a run that has no conditions yet. -/
structure Seeds (run : Run) : Prop where
  /-- A request is refused over the first name that no configuration has. -/
  refuses : ∀ name hints after,
    seedConditions run = (.error (.unknownConfiguration name hints), after) ↔
      (∃ before behind, run.request.names = before ++ name :: behind ∧
        (∀ earlier ∈ before, run.catalog.Offers earlier) ∧ ¬ run.catalog.Offers name) ∧
      hints = suggestions name (run.catalog.configurations.values.map Configuration.name) ∧
      after = run
  refuses_iff : (∃ name hints after,
    seedConditions run = (.error (.unknownConfiguration name hints), after)) ↔
      ∃ name ∈ run.request.names, ¬ run.catalog.Offers name
  /-- Every configuration has the value that is chosen for it, whatever becomes of the formulas. -/
  chooses : (∀ name ∈ run.request.names, run.catalog.Offers name) →
    ∀ configuration ∈ run.catalog.configurations.values,
      (seedConditions run).2.conditions.entries.get? configuration.name =
        some (.pending (.constant
          (run.request.choice configuration.name configuration.selected)))
  /-- The order, the number and the case of the names in a request do not matter. -/
  insensitive : ∀ other : Request, SameNames other.selected run.request.selected →
    SameNames other.deselected run.request.deselected →
      (seedConditions { run with request := other }).2.conditions =
        (seedConditions run).2.conditions ∧
      ((∀ name ∈ run.request.names, run.catalog.Offers name) →
        (seedConditions { run with request := other }).1 = (seedConditions run).1)
  succeeds_iff : (∀ name ∈ run.request.names, run.catalog.Offers name) →
    (∀ derived ∈ run.catalog.defines ++ run.catalog.rules,
      ∃ formula, derived.formula = .ok formula) →
    ((∃ after, seedConditions run = (.ok (), after)) ↔ run.catalog.conditionNames.Nodup)
  /-- Every condition has exactly one entry, and nothing but the table and the stage changes. -/
  fills : ∀ after, seedConditions run = (.ok (), after) →
    after.conditions.names.Perm run.catalog.conditionNames ∧
    (∀ derived ∈ run.catalog.defines ++ run.catalog.rules,
      ∃ formula, derived.formula = .ok formula ∧
        after.conditions.entries.get? derived.name = some (.pending formula)) ∧
    after = { run with conditions := after.conditions, stage := .conditionsSeeded }

/-- Seeding is exact: for every catalog that a tree has and every request, and a table that is empty
at first. -/
theorem seedConditions_exact (extracted : Catalog.extract tree = .ok run.catalog)
    (reached : run.stage = .objectsExtracted) (fresh : run.conditions = .empty) : Seeds run := by
  have keyed := keyed_of_collects ((Catalog.extract_eq tree).symm.trans extracted)
  refine ⟨?refuses, ?refuses_iff, ?chooses, ?insensitive, ?succeeds_iff, ?fills⟩
  case refuses => exact fun name hints after => seedConditions_eq_unknown keyed reached
  case refuses_iff =>
    simp only [seedConditions_eq_unknown keyed reached]
    constructor
    · rintro ⟨name, _, _, ⟨before, behind, split, -, absent⟩, -⟩
      exact ⟨name, by simp [split], absent⟩
    · rintro ⟨name, member, absent⟩
      cases first : firstUnknown run.catalog run.request.names with
      | some other => exact ⟨other, _, run, keyed.firstUnknown_eq_some.1 first, rfl, rfl⟩
      | none => exact absurd (keyed.firstUnknown_eq_none.1 first name member) absent
  case chooses =>
    exact fun offered configuration member => get?_seedConditions keyed reached fresh offered member
  case insensitive =>
    exact fun other selected deselected =>
      seedConditions_congr keyed reached fresh selected deselected
  case succeeds_iff => exact fun offered => seedConditions_succeeds_iff keyed reached fresh offered
  case fills =>
    intro after step
    refine ⟨names_perm_of_seedConditions keyed fresh step, ?_⟩
    obtain ⟨requested, filled, -, adds, rfl⟩ := adds_of_seedConditions keyed fresh step
    refine ⟨fun derived member => ?_, rfl⟩
    obtain ⟨formula, parses⟩ := formula_of_addsFormulas adds derived member
    exact ⟨formula, parses, (get?_of_addsFormulas adds).2 (.inr ⟨derived, member, rfl, formula,
      parses, rfl⟩)⟩

/-- A run with two configurations, a condition that is derived from them and a rule, and a request
that names both configurations twice and in another case. -/
def exWished : Run :=
  { exReached (exTemplate ("<config name=\"Usb\"/><config name=\"Net\" default=\"yes\"/>" ++
      "<define name=\"d\">Usb</define><require>d</require>"))
      [.parse, .extractDefinitions] with
    request := ⟨"t", "o", ["USB", "usb", "net"], ["NET"], .empty, .yes⟩ }

/-- What the template offers. -/
def exOffered : Catalog where
  project := none
  configurations := .ofList [("net", ⟨"Net", "", true, 1⟩), ("usb", ⟨"Usb", "", false, 1⟩)]
  defines := [⟨"d", "", "Usb", 1⟩]
  rules := [⟨"$rule1", "", "d", 1⟩]
  properties := []

theorem exWished_seeded :
    Catalog.extract exWished.tree = .ok exWished.catalog ∧ exWished.stage = .objectsExtracted ∧
    exWished.conditions = .empty ∧ ∃ after, seedConditions exWished = (.ok (), after) ∧
      after.conditions.entries.get? "Usb" = some (.pending (.constant true)) ∧
      after.conditions.entries.get? "Net" = some (.pending (.constant false)) ∧
      after.conditions.names.Perm ["Net", "Usb", "d", "$rule1"] := by
  have begins : Catalog.extract exWished.tree = .ok exWished.catalog ∧
      exWished.stage = .objectsExtracted ∧ exWished.conditions = .empty ∧
      exWished.catalog = exOffered := by decide +kernel
  obtain ⟨extracted, reached, fresh, same⟩ := begins
  have seeds := seedConditions_exact extracted reached fresh
  have offered : ∀ name ∈ exWished.request.names, exWished.catalog.Offers name := by
    unfold Catalog.Offers
    rw [same]
    decide +kernel
  have parses : ∀ derived ∈ exWished.catalog.defines ++ exWished.catalog.rules,
      ∃ formula, derived.formula = .ok formula := by
    have all : ∀ derived ∈ exOffered.defines ++ exOffered.rules, derived.formula.isOk := by
      decide +kernel
    rw [same]
    intro derived member
    cases parsed : derived.formula with
    | ok formula => exact ⟨formula, rfl⟩
    | error why => exact absurd (all derived member) (by rw [parsed]; exact Bool.false_ne_true)
  have distinct : exOffered.conditionNames.Nodup := by decide +kernel
  obtain ⟨after, step⟩ := (seeds.succeeds_iff offered parses).2 (same ▸ distinct)
  have usb := seeds.chooses offered ⟨"Usb", "", false, 1⟩ (by rw [same]; decide +kernel)
  have net := seeds.chooses offered ⟨"Net", "", true, 1⟩ (by rw [same]; decide +kernel)
  have selected : exWished.request.choice "Usb" false = true := by decide +kernel
  have deselected : exWished.request.choice "Net" true = false := by decide +kernel
  have names := (seeds.fills after step).1
  rw [step, selected] at usb
  rw [step, deselected] at net
  rw [same] at names
  exact ⟨extracted, reached, fresh, after, step, usb, net, names⟩

end Run

end ConfigTemplate
