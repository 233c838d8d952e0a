import ConfigTemplate.Proofs.Catalog
import ConfigTemplate.Proofs.Run.Steps

/-!
# The values of properties

Which values the properties get is a matter of the order of bindings: first those declared for all
outputs, then those of configurations that are true, and then those of the request that are not
locked. The last binding of a name counts.

Results:
1. `foldl_overridden_eq`: what the request binds comes to a list of bindings of its own.
2. `scope_eq`: the scope of a run is the one that the bindings make.
-/

namespace ConfigTemplate

open Document (Declaration)

/-! ## Bindings -/

/-- What a declaration says of a property. -/
structure Binding where
  name : String
  value : String
  /-- Whether a request can give another value. -/
  overridable : Bool
deriving DecidableEq, Repr

namespace Binding

/-- The binding of a property that is declared for all outputs. -/
def global? : Declaration → Option Binding
  | .property name _ value none overridable => some ⟨name, value, overridable⟩
  | _ => none

/-- The binding of a property that is declared in a configuration that holds. -/
def owned? (holds : String → Bool) : Declaration → Option Binding
  | .property name _ value (some owner) overridable =>
    if holds owner then some ⟨name, value, overridable⟩ else none
  | _ => none

/-- The bindings that count, in the order in which they are made. -/
def active (declarations : List Declaration) (holds : String → Bool) : List Binding :=
  declarations.filterMap global? ++ declarations.filterMap (owned? holds)

end Binding

/-- The name of a property. -/
def propertyName? : Declaration → Option String
  | .property name _ _ _ _ => some name
  | _ => none

/-- The spelling of the last declared property with the given name, without regard to the case of
ASCII letters, or else the name itself. -/
def declaredSpelling (declarations : List Declaration) (name : String) : String :=
  ((declarations.filterMap propertyName?).reverse.find? fun declared =>
    declared.map Char.toLower = name.map Char.toLower).getD name

/-- Whether a property must keep its declared value. -/
def isLocked (bindings : List Binding) (name : String) : Bool :=
  bindings.any fun binding => binding.name = name && !binding.overridable

/-- The bindings that a request makes: those of names that are not locked. -/
def Request.bindings (request : Request) (declarations : List Declaration)
    (holds : String → Bool) : List (String × String) :=
  request.properties.toList.filterMap fun (key, value) =>
    let name := declaredSpelling declarations key
    if isLocked (Binding.active declarations holds) name then none else some (name, value)

/-- The values of properties that declarations and a request make, for given values of the
conditions. -/
def Request.scope (request : Request) (declarations : List Declaration) (holds : String → Bool) :
    Property.Scope :=
  ⟨NameMap.ofList ((Binding.active declarations holds).map (fun binding =>
    (binding.name, binding.value)) ++ request.bindings declarations holds), []⟩

namespace Run

variable {catalog : Catalog} {scope : Property.Scope} {locked : List String}

/-! ## Scopes by bindings -/

/-- Makes bindings one after the other. -/
def bindAll (scope : Property.Scope) (bindings : List (String × String)) : Property.Scope :=
  bindings.foldl (fun scope binding => scope.set binding.1 binding.2) scope

theorem bindAll_eq (scope : Property.Scope) (bindings : List (String × String)) :
    bindAll scope bindings =
      ⟨bindings.foldl (fun values binding => values.insert binding.1 binding.2) scope.values,
        scope.outer⟩ := by
  induction bindings generalizing scope with
  | nil => rfl
  | cons binding rest ih => exact ih _

theorem contains_set {name other value : String} (known : scope.contains name) :
    (scope.set other value).contains name := by
  rw [Property.Scope.contains, NameMap.contains_iff] at *
  obtain ⟨old, found⟩ := known
  rw [Property.Scope.set, NameMap.get?_insert]
  split
  · exact ⟨value, rfl⟩
  · exact ⟨old, found⟩

/-- The binding that a wish makes, unless its property is locked. -/
def wishBinding? (catalog : Catalog) (locked : List String) (wish : String × String) :
    Option (String × String) :=
  let name := spelled catalog wish.1
  if locked.contains name then none else some (name, wish.2)

/-- Wishes for locked properties count for nothing, because the scope holds all locked names. -/
theorem foldl_overridden_eq (held : ∀ name ∈ locked, scope.contains name)
    (wishes : List (String × String)) :
    wishes.foldl (overridden catalog locked) scope =
      bindAll scope (wishes.filterMap (wishBinding? catalog locked)) := by
  induction wishes generalizing scope with
  | nil => rfl
  | cons wish rest ih =>
    rw [List.foldl_cons, List.filterMap_cons, wishBinding?, overridden]
    by_cases kept : locked.contains (spelled catalog wish.1)
    · have known := held _ (List.contains_iff_mem.1 kept)
      rw [if_pos kept, if_pos (by rw [known, kept]; rfl)]
      exact ih held
    · rw [if_neg kept, if_neg fun refused => kept (Bool.and_eq_true_iff.1 refused).2]
      exact ih fun name member => contains_set (held name member)

/-! ## Declared properties -/

variable {declarations : List (Declaration × Nat)} {table : Condition.Table}
  {holds : String → Bool}

/-- What a declared property binds. -/
def toBinding (property : DeclaredProperty) : Binding :=
  ⟨property.name, property.value, property.overridable⟩

theorem declare_eq (scope : Property.Scope) (active : List DeclaredProperty) :
    declare scope active =
      bindAll scope ((active.map toBinding).map fun binding => (binding.name, binding.value)) := by
  induction active generalizing scope with
  | nil => rfl
  | cons property rest ih => exact ih _

theorem contains_lockedNames (active : List DeclaredProperty) (name : String) :
    (lockedNames active).contains name = isLocked (active.map toBinding) name := by
  rw [isLocked, Bool.eq_iff_iff, List.contains_iff_mem, List.any_map, List.any_eq_true, lockedNames,
    List.mem_map]
  simp only [List.mem_filter, toBinding, Function.comp]
  grind

theorem contains_bindAll {bindings : List (String × String)} {name : String}
    (member : name ∈ bindings.map Prod.fst ∨ scope.contains name) :
    (bindAll scope bindings).contains name := by
  induction bindings generalizing scope with
  | nil => exact member.resolve_left (nomatch ·)
  | cons binding rest ih =>
    refine ih ?_
    rcases member with bound | known
    · rcases List.mem_cons.1 bound with rfl | later
      · exact .inr (NameMap.contains_iff.2
          ⟨binding.2, (NameMap.get?_insert _ _ _ _).trans (if_pos rfl)⟩)
      · exact .inl later
    · exact .inr (contains_set known)

theorem map_filter_propertyOf (keep : DeclaredProperty → Bool)
    (binding? : Declaration → Option Binding)
    (same : ∀ declared ∈ declarations,
      ((Catalog.propertyOf declared).filter keep).map toBinding = binding? declared.1) :
    ((declarations.filterMap Catalog.propertyOf).filter keep).map toBinding =
      (declarations.map Prod.fst).filterMap binding? := by
  rw [List.filter_filterMap, List.map_filterMap, List.filterMap_map]
  exact List.filterMap_congr same

/-- The properties that count make the bindings that count, if every owner is a configuration. -/
theorem map_activeProperties (collects : Catalog.ofDeclarations declarations = .ok catalog)
    (owners : ∀ name description value owner overridable,
      .property name description value (some owner) overridable ∈ declarations.map Prod.fst →
      (catalog.configuration? owner).isSome ∧ table.isTrue owner = holds owner) :
    (activeProperties catalog table).map toBinding =
      Binding.active (declarations.map Prod.fst) holds := by
  obtain ⟨-, -, -, properties⟩ := Catalog.ofDeclarations_eq_ok collects
  rw [activeProperties, properties, List.map_append, Binding.active]
  refine congrArg₂ (· ++ ·) (map_filter_propertyOf _ _ fun declared _ => ?_)
    (map_filter_propertyOf _ _ fun (declared, line) member => ?_)
  · rcases declared with ⟨_ | _ | _ | _ | ⟨name, description, value, _ | owner, overridable⟩, line⟩
    all_goals rfl
  · rcases declared with _ | _ | _ | _ | ⟨name, description, value, _ | owner, overridable⟩
    case property.some =>
      obtain ⟨known, same⟩ := owners name description value owner overridable
        (List.mem_map.2 ⟨_, member, rfl⟩)
      simp only [Catalog.propertyOf, Option.filter, Option.any_some, known, same, Binding.owned?,
        Bool.true_and]
      cases holds owner <;> rfl
    all_goals rfl

theorem spelled_eq (collects : Catalog.ofDeclarations declarations = .ok catalog) (name : String) :
    spelled catalog name = declaredSpelling (declarations.map Prod.fst) name := by
  obtain ⟨-, -, -, properties⟩ := Catalog.ofDeclarations_eq_ok collects
  have names : (declarations.map Prod.fst).filterMap propertyName? =
      catalog.properties.map DeclaredProperty.name := by
    rw [properties, List.map_filterMap, List.filterMap_map]
    refine List.filterMap_congr fun (declared, line) _ => ?_
    cases declared <;> rfl
  rw [spelled, declaredSpelling, names, ← List.map_reverse, List.find?_map, Catalog.property?,
    Function.comp_def]
  generalize catalog.properties.reverse.find? _ = property
  cases property <;> rfl

/-- The scope of a run is the one that declarations and request make. -/
theorem scope_eq {stages : Stages} {request : Request}
    (collects : Catalog.ofDeclarations declarations = .ok stages.catalog)
    (owners : ∀ name description value owner overridable,
      .property name description value (some owner) overridable ∈ declarations.map Prod.fst →
      (stages.catalog.configuration? owner).isSome ∧ stages.settled.isTrue owner = holds owner) :
    stages.scope request = request.scope (declarations.map Prod.fst) holds := by
  have active : stages.active.map toBinding = Binding.active (declarations.map Prod.fst) holds :=
    map_activeProperties collects owners
  have wishes : wishBinding? stages.catalog (lockedNames stages.active) = fun (key, value) =>
      let name := declaredSpelling (declarations.map Prod.fst) key
      if isLocked (Binding.active (declarations.map Prod.fst) holds) name then none
      else some (name, value) := by
    funext wish
    rw [wishBinding?, spelled_eq collects, contains_lockedNames, active]
  rw [Stages.scope, declare_eq, active, foldl_overridden_eq]
  · rw [Request.scope, Request.bindings, bindAll_eq, bindAll_eq, wishes, NameMap.ofList,
      List.foldl_append]
    rfl
  · intro name member
    refine contains_bindAll (.inl ?_)
    obtain ⟨property, locked, rfl⟩ := List.mem_map.1 member
    rw [← active, List.map_map, List.map_map]
    exact List.mem_map.2 ⟨property, (List.mem_filter.1 locked).1, rfl⟩

end Run

end ConfigTemplate
