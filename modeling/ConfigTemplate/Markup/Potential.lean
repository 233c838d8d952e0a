import ConfigTemplate.Markup.Event

/-!
# The potential of a reader

Including a file adds to the input, so the length of the input does not bound how long a template can
be read. But a file that is being read cannot be included again. The potential counts every symbol
with a weight that is the greater the more files are free to be included while it is read, so the
`>` of the element that includes a file outweighs the whole file.

Main statements: the potential never grows by reading (`potential_le_of_follows`), every event makes
it smaller (`potential_lt_of_event`), and so does an event that closes an element together with the
file that is then included (`potential_lt_of_include`).
-/

namespace ConfigTemplate.Markup

namespace Symbol

/-- The number of characters of the file at a location. -/
def textLength (store : Store) (file : Location) : Nat :=
  match store.textAt file with
  | .ok text => text.length
  | .error _ => 0

/-- Two more than the number of characters of the longest file. -/
def base (store : Store) : Nat :=
  (store.files.map fun file => textLength store file.1).foldr max 0 + 2

/-- The number of files that are free to be included before the given symbols. -/
def freeFiles (store : Store) (symbols : List Symbol) : Nat :=
  (store.files.filter fun file => .endOf file.1 ∉ symbols).length

/-- The weight of a character before the given symbols. -/
def weight (store : Store) (symbols : List Symbol) : Nat :=
  Nat.pow (base store) (freeFiles store symbols)

/-- The weight of all symbols. The end of a file weighs as much as a character of that file. -/
def potential (store : Store) : List Symbol → Nat
  | [] => 0
  | .char _ :: rest => weight store rest + potential store rest
  | .endOf file :: rest => weight store (.endOf file :: rest) + potential store rest

theorem base_pos (store : Store) : 0 < base store := by simp [base]

theorem weight_pos (store : Store) (symbols : List Symbol) : 0 < weight store symbols :=
  Nat.pow_pos (base_pos store)

theorem potential_lt_cons (store : Store) (symbol : Symbol) (rest : List Symbol) :
    potential store rest < potential store (symbol :: rest) := by
  cases symbol with
  | char c => simp [potential, weight_pos]
  | endOf file => simp [potential, weight_pos]

theorem potential_le_of_suffix {store : Store} {later symbols : List Symbol}
    (suffix : later <:+ symbols) : potential store later ≤ potential store symbols := by
  obtain ⟨before, rfl⟩ := suffix
  induction before with
  | nil => exact Nat.le_refl _
  | cons symbol before ih => exact Nat.le_trans ih (Nat.le_of_lt (potential_lt_cons _ _ _))

theorem potential_lt_of_suffix {store : Store} {later symbols : List Symbol} {symbol : Symbol}
    (suffix : symbol :: later <:+ symbols) : potential store later < potential store symbols :=
  Nat.lt_of_lt_of_le (potential_lt_cons store symbol later) (potential_le_of_suffix suffix)

theorem freeFiles_le (store : Store) (symbols : List Symbol) :
    freeFiles store symbols ≤ store.files.length := List.length_filter_le _ _

/-- Characters before the given symbols leave the same files free. -/
theorem weight_characters (store : Store) (cs : List Char) (rest : List Symbol) :
    weight store (cs.map .char ++ rest) = weight store rest := by
  have same : ∀ file, Symbol.endOf file ∈ cs.map Symbol.char ++ rest ↔ .endOf file ∈ rest := by
    simp
  simp [weight, freeFiles, same]

theorem potential_characters (store : Store) (cs : List Char) (rest : List Symbol) :
    potential store (cs.map .char ++ rest) =
      cs.length * weight store rest + potential store rest := by
  induction cs with
  | nil => simp
  | cons c cs ih =>
    simp only [List.map_cons, List.cons_append, potential, weight_characters, ih, List.length_cons,
      Nat.succ_mul]
    omega

/-- A file that can be read is one of the files of the store. -/
theorem mem_files_of_textAt {store : Store} {file : Location} {text : String}
    (found : store.textAt file = .ok text) : ∃ content, (file, content) ∈ store.files := by
  unfold Store.textAt Store.bytesAt at found
  cases entry : store.entry? file with
  | none => simp [entry, bind, Except.bind] at found
  | some held =>
    cases held with
    | directory => simp [entry, bind, Except.bind] at found
    | file content =>
      refine ⟨content, ?_⟩
      unfold Store.entry? at entry
      split at entry
      · cases entry
      · obtain ⟨⟨location, held⟩, same, equal⟩ := Option.map_eq_some_iff.1 entry
        have member := List.mem_of_find?_eq_some same
        have located : location = file := by simpa using List.find?_some same
        subst located
        cases equal
        exact List.mem_filterMap.2 ⟨_, member, rfl⟩

theorem le_foldr_max {n : Nat} {ns : List Nat} (member : n ∈ ns) : n ≤ ns.foldr max 0 := by
  induction ns with
  | nil => cases member
  | cons head tail ih =>
    rw [List.foldr_cons]
    rcases List.mem_cons.1 member with same | inTail
    · omega
    · exact Nat.le_trans (ih inTail) (Nat.le_max_right _ _)

theorem length_lt_base {store : Store} {file : Location} {text : String}
    (found : store.textAt file = .ok text) : text.length + 2 ≤ base store := by
  obtain ⟨content, member⟩ := mem_files_of_textAt found
  have length : textLength store file = text.length := by simp [textLength, found]
  have bound : textLength store file ≤ (store.files.map fun f => textLength store f.1).foldr max 0 :=
    le_foldr_max (List.mem_map_of_mem member)
  simp only [base]
  omega

/-- While a file is read, fewer files are free. -/
theorem freeFiles_endOf_lt {store : Store} {file : Location} {text : String} {rest : List Symbol}
    (found : store.textAt file = .ok text) (free : .endOf file ∉ rest) :
    freeFiles store (.endOf file :: rest) < freeFiles store rest := by
  obtain ⟨content, member⟩ := mem_files_of_textAt found
  -- What stays free is what was free before, without this file.
  have fewer : store.files.filter (fun f => .endOf f.1 ∉ .endOf file :: rest) =
      (store.files.filter fun f => .endOf f.1 ∉ rest).filter fun f => f.1 ≠ file := by
    rw [List.filter_filter]
    refine List.filter_congr fun f _ => ?_
    simp
  unfold freeFiles
  rw [fewer]
  refine List.length_filter_lt_length_iff_exists.2 ⟨(file, content), ?_, by simp⟩
  simp [member, free]

/-- A file weighs less than a character before the symbols that it is put in front of. -/
theorem potential_file_lt {store : Store} {file : Location} {text : String} {rest : List Symbol}
    (found : store.textAt file = .ok text) (free : .endOf file ∉ rest) :
    potential store (ofText text ++ .endOf file :: rest) <
      weight store rest + potential store rest := by
  have fewer := freeFiles_endOf_lt found free
  have short := length_lt_base found
  rw [ofText, potential_characters]
  simp only [potential, String.length_toList]
  -- One weight less than a power is lost, and the next power is gained.
  have step : (text.length + 1) * weight store (.endOf file :: rest) <
      base store * weight store (.endOf file :: rest) :=
    Nat.mul_lt_mul_of_pos_right (by omega) (weight_pos _ _)
  have grown : base store * weight store (.endOf file :: rest) ≤ weight store rest := by
    rw [Nat.mul_comm]
    exact Nat.pow_le_pow_right (base_pos store) fewer
  rw [Nat.succ_mul] at step
  omega

end Symbol

namespace Reader

/-- The weight of all that is left to read. A token that was given back weighs as much as a character
before which every file is free. -/
def potential (store : Store) (r : Reader) : Nat :=
  Symbol.potential store r.input + r.pushed.length * Nat.pow (Symbol.base store) store.files.length

theorem potential_le_of_follows {store : Store} {later r : Reader} (follows : Follows later r) :
    later.potential store ≤ r.potential store :=
  Nat.add_le_add (Symbol.potential_le_of_suffix follows.input)
    (Nat.mul_le_mul_right _ follows.pushed.length_le)

theorem potential_lt_of_token {store : Store} {r after : Reader} {token : Token}
    (found : r.next = (.ok (some token), after)) : after.potential store < r.potential store := by
  have follows := r.next_follows
  rw [found] at follows
  have pushed := follows.pushed.length_le
  dsimp only at pushed
  have positive : 0 < Nat.pow (Symbol.base store) store.files.length := Nat.pow_pos (Symbol.base_pos store)
  unfold potential
  rcases next_progress found with ⟨fewer, same⟩ | ⟨symbol, shorter⟩
  · rw [same]
    exact Nat.add_lt_add_left (Nat.mul_lt_mul_of_pos_right fewer positive) _
  · exact Nat.add_lt_add_of_lt_of_le (Symbol.potential_lt_of_suffix shorter)
      (Nat.mul_le_mul_right _ pushed)

/-- Behind the `>` of an element the potential has room for a character. -/
theorem potential_add_weight_le {store : Store} {r after : Reader}
    (found : r.next = (.ok (some .closeMarkup), after)) :
    after.potential store + Symbol.weight store after.input ≤ r.potential store := by
  have follows := r.next_follows
  rw [found] at follows
  have pushed := follows.pushed.length_le
  dsimp only at pushed
  unfold potential
  rcases next_closing found with ⟨fewer, same⟩ | shorter
  -- The `>` was a token that had been given back.
  · rw [same]
    have light : Symbol.weight store r.input ≤ Nat.pow (Symbol.base store) store.files.length :=
      Nat.pow_le_pow_right (Symbol.base_pos store) (Symbol.freeFiles_le _ _)
    have more := Nat.mul_le_mul_right (Nat.pow (Symbol.base store) store.files.length) fewer
    rw [Nat.succ_mul] at more
    omega
  -- The `>` was read from the input.
  · have more := @Symbol.potential_le_of_suffix store _ _ shorter
    have kept := Nat.mul_le_mul_right (Nat.pow (Symbol.base store) store.files.length) pushed
    simp only [Symbol.potential] at more
    omega

/-- Every event makes the potential smaller. -/
theorem potential_lt_of_event {store : Store} {r after : Reader} {event : Event}
    (found : nextEvent r = (.ok (some event), after)) :
    after.potential store < r.potential store := by
  obtain ⟨first, between, same, follows⟩ := nextEvent_progress found
  exact Nat.lt_of_le_of_lt (potential_le_of_follows follows) (potential_lt_of_token same)

/-- The `>` of an element outweighs the file that is put behind it. -/
theorem potential_lt_of_opened {store : Store} {r after included : Reader} {path : String}
    (found : r.next = (.ok (some .closeMarkup), after))
    (reads : includeFile store after path = .ok included) :
    included.potential store < r.potential store := by
  have room := @potential_add_weight_le store _ _ found
  obtain ⟨location, text, opened, free, rfl⟩ := includeFile_eq_ok.1 reads
  have light := Symbol.potential_file_lt (openFile_eq_ok opened).2 free
  simp only [potential] at room ⊢
  omega

/-- An event that closes an element makes the potential smaller, also when a file is included. -/
theorem potential_lt_of_include {store : Store} {r after included : Reader} {event : Event}
    {path : String} (found : nextEvent r = (.ok (some event), after)) (closing : event.isClosing)
    (reads : includeFile store after path = .ok included) :
    included.potential store < r.potential store := by
  obtain ⟨tokens, before, trail, closes⟩ := nextEvent_closing found closing
  exact Nat.lt_of_lt_of_le (potential_lt_of_opened closes reads)
    (potential_le_of_follows trail.follows)

end Reader

end ConfigTemplate.Markup
