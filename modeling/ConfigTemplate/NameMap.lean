/-!
# Maps keyed by names

A finite map from names to values, kept as a list in strictly increasing order of the names. Names
are ordered by code points, which is also the order of their UTF-8 bytes. Because the order is part
of the type, two maps with the same look-ups are equal (`NameMap.ext_get?`).
-/

namespace ConfigTemplate

/-- A finite map from names, its entries in increasing order of the names. -/
structure NameMap (α : Type) where
  entries : List (String × α)
  increasing : entries.Pairwise (fun a b => a.1 < b.1)
deriving DecidableEq, Repr

namespace NameMap

variable {α β : Type}

/-! ## Operations -/

def empty : NameMap α := ⟨[], .nil⟩

instance : Inhabited (NameMap α) := ⟨empty⟩

/-- The first value that is paired with the name. -/
def findEntry (name : String) : List (String × α) → Option α
  | [] => none
  | head :: tail => if head.1 = name then some head.2 else findEntry name tail

def get? (m : NameMap α) (name : String) : Option α := findEntry name m.entries

def contains (m : NameMap α) (name : String) : Bool := (m.get? name).isSome

def size (m : NameMap α) : Nat := m.entries.length

def toList (m : NameMap α) : List (String × α) := m.entries

/-- The names of the map, in increasing order. -/
def names (m : NameMap α) : List String := m.entries.map Prod.fst

/-- The values of the map, in the order of their names. -/
def values (m : NameMap α) : List α := m.entries.map Prod.snd

def insertEntry (name : String) (value : α) : List (String × α) → List (String × α)
  | [] => [(name, value)]
  | head :: tail =>
    if name < head.1 then (name, value) :: head :: tail
    else if name = head.1 then (name, value) :: tail
    else head :: insertEntry name value tail

theorem mem_insertEntry {name : String} {value : α} {entry : String × α}
    {entries : List (String × α)} (member : entry ∈ insertEntry name value entries) :
    entry = (name, value) ∨ entry ∈ entries := by
  induction entries with
  | nil => simpa [insertEntry] using member
  | cons head tail ih =>
    rw [insertEntry] at member
    split at member
    · simpa using member
    · split at member
      · rcases List.mem_cons.1 member with same | inTail
        · exact .inl same
        · exact .inr (List.mem_cons_of_mem _ inTail)
      · rcases List.mem_cons.1 member with same | inTail
        · exact .inr (same ▸ List.mem_cons_self)
        · exact (ih inTail).imp_right (List.mem_cons_of_mem _)

theorem insertEntry_increasing (name : String) (value : α) {entries : List (String × α)}
    (increasing : entries.Pairwise (fun a b => a.1 < b.1)) :
    (insertEntry name value entries).Pairwise (fun a b => a.1 < b.1) := by
  induction entries with
  | nil => simp [insertEntry]
  | cons head tail ih =>
    have tailIncreasing := (List.pairwise_cons.1 increasing).2
    have headLess := (List.pairwise_cons.1 increasing).1
    rw [insertEntry]
    split
    · rename_i less
      refine List.pairwise_cons.2 ⟨fun entry member => ?_, increasing⟩
      rcases List.mem_cons.1 member with same | inTail
      · exact same ▸ less
      · exact String.lt_trans less (headLess entry inTail)
    · split
      · rename_i same
        refine List.pairwise_cons.2 ⟨fun entry member => ?_, tailIncreasing⟩
        exact same ▸ headLess entry member
      · rename_i notLess notSame
        refine List.pairwise_cons.2 ⟨fun entry member => ?_, ih tailIncreasing⟩
        rcases mem_insertEntry member with same | inTail
        · subst same
          rcases Decidable.em (head.1 < name) with less | notGreater
          · exact less
          · exact absurd (String.le_antisymm notGreater notLess) notSame
        · exact headLess entry inTail

/-- The map with `name` bound to `value`, whatever it was bound to before. -/
def insert (m : NameMap α) (name : String) (value : α) : NameMap α :=
  ⟨insertEntry name value m.entries, insertEntry_increasing name value m.increasing⟩

/-- The map without `name`. -/
def erase (m : NameMap α) (name : String) : NameMap α :=
  ⟨m.entries.filter (fun entry => entry.1 ≠ name), m.increasing.sublist List.filter_sublist⟩

/-- The map with every value replaced by what `f` makes of its name and itself. -/
def mapValues (f : String → α → β) (m : NameMap α) : NameMap β :=
  ⟨m.entries.map (fun entry => (entry.1, f entry.1 entry.2)),
    List.pairwise_map.2 (m.increasing.imp fun less => less)⟩

/-- The map of a list of bindings, of which the last one of a name counts. -/
def ofList (bindings : List (String × α)) : NameMap α :=
  bindings.foldl (fun m binding => m.insert binding.1 binding.2) empty

/-! ## Look-ups -/

@[simp]
theorem get?_empty (name : String) : (empty : NameMap α).get? name = none := rfl

theorem findEntry_insertEntry (name other : String) (value : α) (entries : List (String × α)) :
    findEntry other (insertEntry name value entries) =
      if other = name then some value else findEntry other entries := by
  induction entries with
  | nil => grind [insertEntry, findEntry]
  | cons head tail ih => grind [insertEntry, findEntry]

@[simp]
theorem get?_insert (m : NameMap α) (name other : String) (value : α) :
    (m.insert name value).get? other = if other = name then some value else m.get? other :=
  findEntry_insertEntry name other value m.entries

theorem findEntry_filter_ne (name other : String) (entries : List (String × α)) :
    findEntry other (entries.filter (fun entry => entry.1 ≠ name)) =
      if other = name then none else findEntry other entries := by
  induction entries with
  | nil => simp [findEntry]
  | cons head tail ih => by_cases same : head.1 = name <;> grind [findEntry]

@[simp]
theorem get?_erase (m : NameMap α) (name other : String) :
    (m.erase name).get? other = if other = name then none else m.get? other :=
  findEntry_filter_ne name other m.entries

theorem findEntry_map (f : String → α → β) (name : String) (entries : List (String × α)) :
    findEntry name (entries.map (fun entry => (entry.1, f entry.1 entry.2))) =
      (findEntry name entries).map (f name) := by
  induction entries with
  | nil => rfl
  | cons head tail ih => grind [findEntry]

@[simp]
theorem get?_mapValues (f : String → α → β) (m : NameMap α) (name : String) :
    (m.mapValues f).get? name = (m.get? name).map (f name) :=
  findEntry_map f name m.entries

theorem findEntry_eq_some_iff {entries : List (String × α)}
    (increasing : entries.Pairwise (fun a b => a.1 < b.1)) {name : String} {value : α} :
    findEntry name entries = some value ↔ (name, value) ∈ entries := by
  induction entries with
  | nil => simp [findEntry]
  | cons head tail ih =>
    obtain ⟨headLess, tailIncreasing⟩ := List.pairwise_cons.1 increasing
    rw [findEntry]
    split
    · rename_i same
      subst same
      constructor
      · intro found
        exact Option.some.inj found ▸ List.mem_cons_self
      · intro member
        rcases List.mem_cons.1 member with equal | inTail
        · exact equal ▸ rfl
        · exact absurd (headLess _ inTail) (String.lt_irrefl _)
    · rename_i differs
      rw [ih tailIncreasing]
      exact ⟨List.mem_cons_of_mem _, fun member => (List.mem_cons.1 member).resolve_left
        fun equal => differs (congrArg Prod.fst equal).symm⟩

theorem get?_eq_some_iff {m : NameMap α} {name : String} {value : α} :
    m.get? name = some value ↔ (name, value) ∈ m.toList :=
  findEntry_eq_some_iff m.increasing

theorem contains_iff {m : NameMap α} {name : String} :
    m.contains name ↔ ∃ value, m.get? name = some value :=
  Option.isSome_iff_exists

theorem mem_names_iff {m : NameMap α} {name : String} : name ∈ m.names ↔ m.contains name := by
  simp only [contains_iff, get?_eq_some_iff, names, toList, List.mem_map, Prod.exists,
    exists_and_right, exists_eq_right]

theorem mem_values_iff {m : NameMap α} {value : α} :
    value ∈ m.values ↔ ∃ name, m.get? name = some value := by
  simp only [get?_eq_some_iff, values, toList, List.mem_map, Prod.exists, exists_eq_right]

/-- Two maps with the same look-ups are the same map. -/
theorem ext_get? {m n : NameMap α} (same : ∀ name, m.get? name = n.get? name) : m = n := by
  obtain ⟨left, leftIncreasing⟩ := m
  obtain ⟨right, rightIncreasing⟩ := n
  have members : ∀ entry, entry ∈ left ↔ entry ∈ right := fun ⟨name, value⟩ => by
    rw [← findEntry_eq_some_iff leftIncreasing, ← findEntry_eq_some_iff rightIncreasing]
    exact iff_of_eq (congrArg (· = some value) (same name))
  have equal : left = right := by
    clear same
    induction left generalizing right with
    | nil =>
      cases right with
      | nil => rfl
      | cons head tail => exact absurd ((members head).2 List.mem_cons_self) (by simp)
    | cons head tail ih =>
      cases right with
      | nil => exact absurd ((members head).1 List.mem_cons_self) (by simp)
      | cons first rest =>
        obtain ⟨headLess, tailIncreasing⟩ := List.pairwise_cons.1 leftIncreasing
        obtain ⟨firstLess, restIncreasing⟩ := List.pairwise_cons.1 rightIncreasing
        have heads : head = first := by
          rcases List.mem_cons.1 ((members head).1 List.mem_cons_self) with equal | inRest
          · exact equal
          · rcases List.mem_cons.1 ((members first).2 List.mem_cons_self) with equal | inTail
            · exact equal.symm
            · exact absurd (String.lt_trans (firstLess _ inRest) (headLess _ inTail))
                (String.lt_irrefl _)
        subst heads
        refine congrArg (head :: ·) (ih tailIncreasing rest restIncreasing fun entry => ?_)
        constructor
        · intro inTail
          rcases List.mem_cons.1 ((members entry).1 (List.mem_cons_of_mem _ inTail)) with
            equal | inRest
          · exact absurd (equal ▸ headLess _ inTail) (String.lt_irrefl _)
          · exact inRest
        · intro inRest
          rcases List.mem_cons.1 ((members entry).2 (List.mem_cons_of_mem _ inRest)) with
            equal | inTail
          · exact absurd (equal ▸ firstLess _ inRest) (String.lt_irrefl _)
          · exact inTail
  subst equal
  rfl

end NameMap

end ConfigTemplate
