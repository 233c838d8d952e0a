import ConfigTemplate.Proofs.Catalog
import ConfigTemplate.Proofs.Condition.Reference
import ConfigTemplate.Proofs.Run.Steps

/-!
# The seeded table

Seeding gives every configuration the value that the request asks for, or else its own, and every
derived condition and rule its formula.

Results:
1. `getD_requestedValues`: what a request asks for, whatever the order and the case of its wishes.
2. `get?_foldl_seedConfiguration` and `get?_of_addsFormulas`: what seeding enters in a table.
-/

namespace ConfigTemplate

/-! ## Wishes -/

/-- Whether a list of wishes names a configuration, without regard to case. -/
def mentions (wishes : List String) (name : String) : Bool :=
  wishes.any fun wish => Text.lowerCase wish = Text.lowerCase name

/-- The value of a configuration: deselecting it counts, then selecting it, then its own value. -/
def Request.choice (request : Request) (name : String) (default : Bool) : Bool :=
  if mentions request.deselected name then false
  else if mentions request.selected name then true
  else default

namespace Run

variable {catalog : Catalog} {request : Request} {requested found : NameMap Bool}
  {configuration : Configuration} {wishes : List (String × Bool)}

/-- Each configuration is found by its name in lower case. -/
def Keyed (catalog : Catalog) : Prop :=
  ∀ key configuration, catalog.configurations.get? key = some configuration →
    key = Text.lowerCase configuration.name

/-- The configuration is in the catalog. -/
def Knows (catalog : Catalog) (configuration : Configuration) : Prop :=
  catalog.configurations.get? (Text.lowerCase configuration.name) = some configuration

theorem keyed_of_collects {declarations : List (Document.Declaration × Nat)}
    (collects : Catalog.ofDeclarations declarations = .ok catalog) : Keyed catalog :=
  fun key configuration found =>
    (((Catalog.ofDeclarations_eq_ok collects).1 key configuration).1 found).1.symm

theorem Keyed.knows (keyed : Keyed catalog)
    (member : configuration ∈ catalog.configurations.values) : Knows catalog configuration := by
  obtain ⟨key, found⟩ := NameMap.mem_values_iff.1 member
  rwa [Knows, ← keyed key configuration found]

/-- A catalog has one configuration of a name. -/
theorem Keyed.eq_of_name (keyed : Keyed catalog) :
    ∀ first ∈ catalog.configurations.values, ∀ second ∈ catalog.configurations.values,
      first.name = second.name → first = second := by
  intro first inFirst second inSecond same
  have known := keyed.knows inFirst
  rw [Knows, same] at known
  exact Option.some.inj (known.symm.trans (keyed.knows inSecond))

/-- The last wish for a configuration. -/
def lastWish (name : String) (before : Option Bool) (wishes : List (String × Bool)) : Option Bool :=
  wishes.foldl (fun last wish =>
    if Text.lowerCase wish.1 = Text.lowerCase name then some wish.2 else last) before

theorem get?_foldlM_addRequested (keyed : Keyed catalog) (known : Knows catalog configuration)
    (adds : wishes.foldlM (addRequested catalog) found = .ok requested) :
    requested.get? configuration.name =
      lastWish configuration.name (found.get? configuration.name) wishes := by
  induction wishes generalizing found with
  | nil =>
    cases adds
    rfl
  | cons wish rest ih =>
    rw [List.foldlM_cons] at adds
    rcases wished : catalog.configuration? wish.1 with _ | other
    · simp only [addRequested, wished] at adds
      cases adds
    · simp only [addRequested, wished] at adds
      rw [ih adds, lastWish, lastWish, List.foldl_cons, NameMap.get?_insert]
      -- Two configurations with one name have one key, so they are the same.
      have same : configuration.name = other.name ↔
          Text.lowerCase wish.1 = Text.lowerCase configuration.name := by
        constructor
        · exact fun names => names ▸ keyed _ _ wished
        · intro keys
          rw [Catalog.configuration?, keys] at wished
          exact congrArg Configuration.name (Option.some.inj (known.symm.trans wished))
      simp only [same]

theorem lastWish_append (name : String) (before : Option Bool)
    (first second : List (String × Bool)) :
    lastWish name before (first ++ second) = lastWish name (lastWish name before first) second :=
  List.foldl_append

theorem lastWish_map (name : String) (before : Option Bool) (wishes : List String) (value : Bool) :
    lastWish name before (wishes.map (·, value)) =
      if mentions wishes name then some value else before := by
  induction wishes generalizing before with
  | nil => rfl
  | cons wish rest ih =>
    rw [List.map_cons, lastWish, List.foldl_cons, ← lastWish, ih]
    by_cases same : Text.lowerCase wish = Text.lowerCase name <;> simp [mentions, same]

theorem getD_requestedValues (keyed : Keyed catalog) (known : Knows catalog configuration)
    (requests : requestedValues catalog request = .ok requested) :
    (requested.get? configuration.name).getD configuration.selected =
      request.choice configuration.name configuration.selected := by
  rw [get?_foldlM_addRequested keyed known requests, lastWish_append, lastWish_map, lastWish_map,
    NameMap.get?_empty, Request.choice]
  split
  · rfl
  · split <;> rfl

/-! ## Entries -/

variable {table after : Condition.Table} {name : String} {entry : Condition.Entry}

/-- The entry that a configuration is seeded with. -/
def constantEntry (requested : NameMap Bool) (configuration : Configuration) : Condition.Entry :=
  .pending (.constant ((requested.get? configuration.name).getD configuration.selected))

theorem get?_foldl_seedConfiguration {configurations : List Configuration}
    (distinct : ∀ first ∈ configurations, ∀ second ∈ configurations,
      first.name = second.name → first = second) :
    (configurations.foldl (seedConfiguration requested) table).entries.get? name = some entry ↔
      (∃ configuration ∈ configurations, configuration.name = name ∧
        entry = constantEntry requested configuration) ∨
      ((∀ configuration ∈ configurations, configuration.name ≠ name) ∧
        table.entries.get? name = some entry) := by
  induction configurations generalizing table with
  | nil => simp
  | cons first rest ih =>
    have later := fun left inLeft right inRight =>
      distinct left (List.mem_cons_of_mem _ inLeft) right (List.mem_cons_of_mem _ inRight)
    have here := fun second inRest => distinct second (List.mem_cons_of_mem _ inRest) first
      List.mem_cons_self
    have inserted : (seedConfiguration requested table first).entries.get? name =
        if name = first.name then some (constantEntry requested first)
        else table.entries.get? name := NameMap.get?_insert _ _ _ _
    rw [List.foldl_cons, ih later, inserted]
    by_cases same : name = first.name
    · rw [if_pos same]
      subst same
      constructor
      · rintro (⟨second, inRest, names, rfl⟩ | ⟨-, entries⟩)
        · exact .inl ⟨second, List.mem_cons_of_mem _ inRest, names, rfl⟩
        · exact .inl ⟨first, List.mem_cons_self, rfl, (Option.some.inj entries).symm⟩
      · rintro (⟨second, member, names, rfl⟩ | ⟨absent, -⟩)
        · rcases List.mem_cons.1 member with rfl | inRest
          · by_cases again : ∃ other ∈ rest, other.name = second.name
            · obtain ⟨other, inRest, names⟩ := again
              exact .inl ⟨other, inRest, names, by rw [here other inRest names]⟩
            · exact .inr ⟨fun other inRest names => again ⟨other, inRest, names⟩, rfl⟩
          · exact .inl ⟨second, inRest, names, rfl⟩
        · exact absurd rfl (absent first List.mem_cons_self)
    · rw [if_neg same]
      simp only [List.mem_cons, exists_eq_or_imp, forall_eq_or_imp, Ne.symm same, false_and,
        false_or, ne_eq, not_false_eq_true, true_and]

theorem get?_of_addsFormulas {named : List NamedFormula} (adds : AddsFormulas table named after) :
    after.entries.get? name = some entry ↔ table.entries.get? name = some entry ∨
      ∃ derived ∈ named, derived.name = name ∧
        ∃ formula, derived.formula = .ok formula ∧ entry = .pending formula := by
  induction adds with
  | nil => simp
  | cons free parses further ih =>
    rename_i table after derived rest formula
    have fresh : table.entries.get? derived.name = none := by
      simpa [Condition.Table.contains, NameMap.contains] using free
    rw [ih, Condition.Table.insert, NameMap.get?_insert]
    by_cases same : name = derived.name
    · subst same
      rw [if_pos rfl, fresh]
      constructor
      · rintro (entries | ⟨later, inRest, names, formula, parses, rfl⟩)
        · exact .inr ⟨derived, List.mem_cons_self, rfl, _, parses, (Option.some.inj entries).symm⟩
        · exact .inr ⟨later, List.mem_cons_of_mem _ inRest, names, formula, parses, rfl⟩
      · rintro (none_ | ⟨later, member, names, formula, also, rfl⟩)
        · cases none_
        · rcases List.mem_cons.1 member with rfl | inRest
          · cases parses.symm.trans also
            exact .inl rfl
          · exact .inr ⟨later, inRest, names, formula, also, rfl⟩
    · simp only [if_neg same, List.mem_cons, exists_eq_or_imp, Ne.symm same, false_and, false_or]

theorem formula_of_addsFormulas {named : List NamedFormula}
    (adds : AddsFormulas table named after) :
    ∀ derived ∈ named, ∃ formula, derived.formula = .ok formula := by
  induction adds with
  | nil => simp
  | cons free parses further ih =>
    intro derived member
    rcases List.mem_cons.1 member with rfl | later
    · exact ⟨_, parses⟩
    · exact ih derived later

end Run

end ConfigTemplate
