import ConfigTemplate.Files.Store

/-!
# Looking up after a change

What `put` and `remove` do to the entries of a store, and when a path leads to the same place before
and after.

Results:
1. `entry?_put` and `remove_put`: a change at a location changes nothing else, and a new entry can
   be taken back without a trace.
2. `walk_mono`: a path that leads somewhere still does when entries are added and no directory
   changes.
3. `walk_of_put_file`: no path leads to a directory by way of a new file.
-/

namespace ConfigTemplate.Store

variable {store other : Store} {location target : Location} {entry : Entry}

/-! ## Entries -/

theorem find?_replace (entries : List (Location × Entry)) :
    ((entries.map fun old => if old.1 = target then (target, entry) else old).find?
        (·.1 = location)).map Prod.snd =
      if location = target then
        (entries.find? (·.1 = target)).map fun _ => entry
      else (entries.find? (·.1 = location)).map Prod.snd := by
  induction entries with
  | nil => simp
  | cons head tail ih => grind

theorem put_of_isSome (present : (store.entry? target).isSome) :
    store.put target entry = { store with
      entries := store.entries.map fun old => if old.1 = target then (target, entry) else old } :=
  if_pos present

theorem put_of_eq_none (absent : store.entry? target = none) :
    store.put target entry = { store with entries := (target, entry) :: store.entries } :=
  if_neg (by simp [absent])

theorem entry?_of_ne_nil (store : Store) (proper : location ≠ []) :
    store.entry? location = (store.entries.find? (·.1 = location)).map Prod.snd :=
  if_neg proper

theorem entry?_put (store : Store) (entry : Entry) (location : Location) (proper : target ≠ []) :
    Store.entry? (store.put target entry) location =
      if location = target then some entry else store.entry? location := by
  by_cases root : location = []
  · subst root
    exact (if_neg proper.symm).symm
  rw [entry?_of_ne_nil _ root, entry?_of_ne_nil store root]
  cases found : store.entry? target with
  | some old =>
    rw [put_of_isSome (by simp [found]), find?_replace]
    obtain ⟨pair, isPair, -⟩ := Option.map_eq_some_iff.1 ((entry?_of_ne_nil store proper) ▸ found)
    rw [isPair, Option.map_some]
  | none =>
    rw [put_of_eq_none found]
    grind

theorem workingDirectory_put :
    (store.put target entry).workingDirectory = store.workingDirectory := by
  unfold put
  split <;> rfl

theorem entry?_eq_none_iff (proper : location ≠ []) :
    store.entry? location = none ↔ ∀ old ∈ store.entries, old.1 ≠ location := by
  rw [entry?_of_ne_nil store proper]
  simp

/-- A new entry can be taken back without a trace. -/
theorem remove_put (entry : Entry) (proper : target ≠ []) (absent : store.entry? target = none) :
    (store.put target entry).remove target = store := by
  have others := (entry?_eq_none_iff proper).1 absent
  obtain ⟨entries, workingDirectory⟩ := store
  simp only [put, absent, Option.isSome_none, remove, Bool.false_eq_true, if_false]
  congr 1
  simpa using others

theorem isDirectory_put_file (proper : target ≠ [])
    (notDirectory : store.isDirectory target = false) (content : Bytes) (location : Location) :
    (store.put target (.file content)).isDirectory location = store.isDirectory location := by
  unfold isDirectory at notDirectory ⊢
  rw [entry?_put store _ _ proper]
  split
  · rename_i same
    subst same
    simpa using notDirectory
  · rfl

theorem isSome_entry?_put (proper : target ≠ []) (present : (store.entry? location).isSome) :
    (Store.entry? (store.put target entry) location).isSome := by
  rw [entry?_put store _ _ proper]
  split
  · rfl
  · exact present

/-! ## Walks -/

/-- Where one segment leads from a directory, if to anything. -/
def follow? (store : Store) (location : Location) (segment : String) : Option Location :=
  if Path.isTrivial segment then some location
  else if segment = ".." then some location.dropLast
  else if (store.entry? (location ++ [segment])).isSome then some (location ++ [segment])
  else none

theorem walk_cons_eq_ok_iff {segment : String} {rest : List String} {reached : Location} :
    store.walk location (segment :: rest) = .ok reached ↔ store.isDirectory location ∧
      ∃ next, store.follow? location segment = some next ∧ store.walk next rest = .ok reached := by
  rw [walk]
  unfold follow?
  rcases store.entry? (location ++ [segment]) with _ | found <;> grind

theorem walk_append (store : Store) (location : Location) (before after : List String) :
    store.walk location (before ++ after) =
      (store.walk location before).bind fun reached => store.walk reached after := by
  induction before generalizing location with
  | nil => rfl
  | cons segment rest ih =>
    rw [List.cons_append, walk, walk]
    simp only [ih]
    grind [Except.bind]

/-- Nothing lies below a file. -/
theorem walk_from_file {segments : List String} {reached : Location}
    (file : store.isDirectory location = false)
    (walked : store.walk location segments = .ok reached) : reached = location := by
  cases segments with
  | nil => exact (Except.ok.inj walked).symm
  | cons segment rest => simp [walk, file] at walked

theorem follow?_mono {segment : String} {next : Location}
    (present : ∀ place, (store.entry? place).isSome → (other.entry? place).isSome)
    (follows : store.follow? location segment = some next) :
    other.follow? location segment = some next := by
  have found := present (location ++ [segment])
  unfold follow? at follows ⊢
  grind

theorem walk_mono {segments : List String} {reached : Location}
    (directories : ∀ place, other.isDirectory place = store.isDirectory place)
    (present : ∀ place, (store.entry? place).isSome → (other.entry? place).isSome)
    (walked : store.walk location segments = .ok reached) :
    other.walk location segments = .ok reached := by
  induction segments generalizing location with
  | nil => exact walked
  | cons segment rest ih =>
    obtain ⟨directory, next, follows, further⟩ := walk_cons_eq_ok_iff.1 walked
    refine walk_cons_eq_ok_iff.2 ⟨(directories location).trans directory, next, ?_, ih further⟩
    exact follow?_mono present follows

/-- A segment leads to the same place before a new entry is made, or to the new entry. -/
theorem follow?_of_put {segment : String} {next : Location} (proper : target ≠ [])
    (follows : (store.put target entry).follow? location segment = some next) :
    store.follow? location segment = some next ∨ next = target := by
  unfold follow? at follows ⊢
  rw [entry?_put store _ _ proper] at follows
  grind

/-- No path leads to a directory by way of a new file. -/
theorem walk_of_put_file {segments : List String} {reached : Location} {content : Bytes}
    (proper : target ≠ []) (notDirectory : store.isDirectory target = false)
    (walked : (store.put target (.file content)).walk location segments = .ok reached)
    (directory : store.isDirectory reached) : store.walk location segments = .ok reached := by
  have same := isDirectory_put_file proper notDirectory content
  induction segments generalizing location with
  | nil => exact walked
  | cons segment rest ih =>
    obtain ⟨onDirectory, next, follows, further⟩ := walk_cons_eq_ok_iff.1 walked
    rcases follow?_of_put proper follows with before | rfl
    · exact walk_cons_eq_ok_iff.2 ⟨(same location).symm.trans onDirectory, next, before, ih further⟩
    · have stopped := walk_from_file ((same next).trans notDirectory) further
      rw [stopped, notDirectory] at directory
      cases directory

end ConfigTemplate.Store
