import ConfigTemplate.Proofs.Text.EditDistance
import ConfigTemplate.Suggestion
import Mathlib.Data.String.Basic

/-!
# What is suggested

Suggestions are collected distance by distance. This is the stable order of the names in reach by their
distance. How far the reach is depends on the number of bytes of the misspelt name, not on the number of
its characters, in which the distance is counted; so a short name with letters outside of ASCII reaches
further than it would with as many ASCII letters.

Results:
1. `sortedBy_eq_flatMap`: a stable sort by a key collects the elements key by key.
2. `suggestions_nearest`: what is suggested, and when this is by the number of characters.
-/

namespace ConfigTemplate

/-! ## Stable order -/

section Sorting

variable {α : Type} {key : α → Nat} {elements : List α} {bound : Nat}

/-- The elements from the least key to the greatest; those with equal keys keep their order. -/
def sortedBy (key : α → Nat) (elements : List α) : List α :=
  elements.mergeSort fun left right => key left ≤ key right

theorem keys_trans (key : α → Nat) (first second third : α) (left : decide (key first ≤ key second))
    (right : decide (key second ≤ key third)) : decide (key first ≤ key third) :=
  decide_eq_true (Nat.le_trans (of_decide_eq_true left) (of_decide_eq_true right))

theorem keys_total (key : α → Nat) (first second : α) :
    (decide (key first ≤ key second) || decide (key second ≤ key first)) = true := by
  simpa using Nat.le_total _ _

theorem pairwise_sortedBy (key : α → Nat) (elements : List α) :
    (sortedBy key elements).Pairwise (key · ≤ key ·) :=
  (List.pairwise_mergeSort (keys_trans key) (keys_total key) elements).imp of_decide_eq_true

/-- The elements with a given key form a sorted part of the list, which the sort keeps. -/
theorem filter_sortedBy (key : α → Nat) (elements : List α) (value : Nat) :
    (sortedBy key elements).filter (key · = value) = elements.filter (key · = value) := by
  have equal : ∀ element ∈ elements.filter (key · = value), key element = value :=
    fun element member => of_decide_eq_true (List.mem_filter.1 member).2
  have sorted : (elements.filter (key · = value)).Pairwise
      fun left right => decide (key left ≤ key right) := by
    refine List.Pairwise.imp_of_mem ?_ (List.pairwise_of_forall fun _ _ => trivial)
    intro left right inLeft inRight _
    exact decide_eq_true (Nat.le_of_eq ((equal left inLeft).trans (equal right inRight).symm))
  have kept := List.sublist_mergeSort (keys_trans key) (keys_total key) sorted List.filter_sublist
  have inside := kept.filter (key · = value)
  rw [List.filter_eq_self.2 fun element member => decide_eq_true (equal element member)] at inside
  refine (inside.eq_of_length ?_).symm
  exact ((List.mergeSort_perm elements _).filter _).length_eq.symm

/-- Sorted elements with keys up to a bound end with those whose key is the bound. -/
theorem eq_filter_append (sorted : elements.Pairwise (key · ≤ key ·))
    (bounded : ∀ element ∈ elements, key element ≤ bound) :
    elements = elements.filter (key · < bound) ++ elements.filter (key · = bound) := by
  induction elements with
  | nil => rfl
  | cons first rest ih =>
    obtain ⟨least, sortedRest⟩ := List.pairwise_cons.1 sorted
    have boundedRest : ∀ element ∈ rest, key element ≤ bound :=
      fun element member => bounded element (List.mem_cons_of_mem _ member)
    rcases Nat.lt_or_eq_of_le (bounded first List.mem_cons_self) with lower | last
    · rw [List.filter_cons_of_pos (by simpa using lower),
        List.filter_cons_of_neg (by simpa using Nat.ne_of_lt lower), List.cons_append,
        ← ih sortedRest boundedRest]
    · -- Behind the first element with the greatest key there are only such elements.
      have all : ∀ element ∈ first :: rest, key element = bound := by
        intro element member
        refine Nat.le_antisymm (bounded element member) ?_
        rcases List.mem_cons.1 member with rfl | later
        · exact Nat.le_of_eq last.symm
        · exact last ▸ least element later
      have none : (first :: rest).filter (key · < bound) = [] := by
        rw [List.filter_eq_nil_iff]
        intro element member
        simpa using Nat.le_of_eq (all element member).symm
      rw [none, List.nil_append, List.filter_eq_self.2]
      exact fun element member => decide_eq_true (all element member)

theorem eq_flatMap_filter (sorted : elements.Pairwise (key · ≤ key ·))
    (bounded : ∀ element ∈ elements, key element < bound) :
    elements = (List.range bound).flatMap fun value => elements.filter (key · = value) := by
  induction bound generalizing elements with
  | zero =>
    refine List.eq_nil_iff_forall_not_mem.2 fun element member => ?_
    exact absurd (bounded element member) (Nat.not_lt_zero _)
  | succ bound ih =>
    have split := eq_filter_append sorted
      fun element member => Nat.le_of_lt_succ (bounded element member)
    have lower := @ih (elements.filter (key · < bound)) (sorted.filter _)
      fun element member => of_decide_eq_true (List.mem_filter.1 member).2
    have same : ∀ value ∈ List.range bound,
        (elements.filter (key · < bound)).filter (key · = value) =
          elements.filter (key · = value) := by
      intro value member
      rw [List.filter_filter]
      refine List.filter_congr fun element _ => ?_
      have below := List.mem_range.1 member
      rw [Bool.and_eq_left_iff_imp]
      intro equal
      exact decide_eq_true (of_decide_eq_true equal ▸ below)
    rw [List.flatMap_def, List.map_congr_left same, ← List.flatMap_def] at lower
    rw [List.range_succ, List.flatMap_append, List.flatMap_singleton, ← lower]
    exact split

/-- A stable sort collects the elements key by key. -/
theorem sortedBy_eq_flatMap (bounded : ∀ element ∈ elements, key element < bound) :
    sortedBy key elements =
      (List.range bound).flatMap fun value => elements.filter (key · = value) := by
  have boundedSorted : ∀ element ∈ sortedBy key elements, key element < bound :=
    fun element member => bounded element (List.mem_mergeSort.1 member)
  have collected := eq_flatMap_filter (pairwise_sortedBy key elements) boundedSorted
  simp only [filter_sortedBy] at collected
  exact collected

end Sorting

/-! ## Suggestions -/

open Text (Edits editDistance)

/-- The names within reach in the order of their distance, three at most. -/
def nearest (distance : String → Nat) (reach : Nat) (available : List String) : List String :=
  (sortedBy distance (available.filter fun candidate =>
    1 ≤ distance candidate ∧ distance candidate ≤ reach)).take 3

theorem nearest_eq (distance : String → Nat) (reach : Nat) (available : List String) :
    nearest distance reach available =
      ((List.range reach).flatMap fun n => available.filter (distance · = n + 1)).take 3 := by
  have bounded : ∀ candidate ∈ available.filter (fun candidate =>
      1 ≤ distance candidate ∧ distance candidate ≤ reach), distance candidate < reach + 1 := by
    intro candidate member
    exact Nat.lt_succ_of_le (of_decide_eq_true (List.mem_filter.1 member).2).2
  have none : (available.filter fun candidate =>
      1 ≤ distance candidate ∧ distance candidate ≤ reach).filter (distance · = 0) = [] := by
    rw [List.filter_eq_nil_iff]
    intro candidate member
    have far := (of_decide_eq_true (List.mem_filter.1 member).2).1
    simpa using Nat.ne_of_gt far
  have within : ∀ n ∈ List.range reach, (available.filter fun candidate =>
      1 ≤ distance candidate ∧ distance candidate ≤ reach).filter (distance · = n + 1) =
        available.filter (distance · = n + 1) := by
    intro n member
    have inside := List.mem_range.1 member
    rw [List.filter_filter]
    refine List.filter_congr fun candidate _ => ?_
    rw [← Bool.decide_and, decide_eq_decide]
    omega
  rw [nearest, sortedBy_eq_flatMap bounded, List.range_succ_eq_map, List.flatMap_cons, none,
    List.nil_append, List.flatMap_map, List.flatMap_def, List.map_congr_left within,
    ← List.flatMap_def]

/-- A wider reach only adds names behind those of the narrower one. -/
theorem nearest_prefix (distance : String → Nat) {reach wider : Nat} (le : reach ≤ wider)
    (available : List String) :
    nearest distance reach available <+: nearest distance wider available := by
  obtain ⟨more, rfl⟩ := Nat.exists_eq_add_of_le le
  rw [nearest_eq, nearest_eq, List.range_add, List.flatMap_append, List.take_append]
  exact List.prefix_append _ _

theorem suggestions_eq_nearest (name : String) (available : List String) :
    suggestions name available =
      nearest (fun candidate => editDistance name.toList candidate.toList)
        (if name.utf8ByteSize ≤ 3 then 1 else 2) available := by
  rw [nearest_eq]
  rfl

theorem length_le_utf8ByteSize (name : String) : name.length ≤ name.utf8ByteSize := by
  rw [← String.length_toList]
  conv => rhs; rw [← String.ofList_toList (s := name), String.utf8ByteSize_ofList]
  induction name.toList with
  | nil => exact Nat.zero_le _
  | cons c cs ih =>
    rw [String.utf8Len_cons, List.length_cons]
    exact Nat.add_le_add ih c.utf8Size_pos

/-- What is suggested are the nearest names within one edit of a name that has at most three bytes, and
within two edits of any other one. These begin with the nearest names by the same rule for the number of
characters, and are the same unless the name has at most three characters but more bytes. -/
theorem suggestions_nearest (name : String) (available : List String) (distance : String → Nat)
    (least : ∀ candidate,
      IsLeast {count | Edits count name.toList candidate.toList} (distance candidate)) :
    suggestions name available =
      nearest distance (if name.utf8ByteSize ≤ 3 then 1 else 2) available ∧
    nearest distance (if name.length ≤ 3 then 1 else 2) available <+: suggestions name available ∧
    ((name.length ≤ 3 → name.utf8ByteSize ≤ 3) →
      suggestions name available =
        nearest distance (if name.length ≤ 3 then 1 else 2) available) := by
  obtain rfl : (fun candidate => editDistance name.toList candidate.toList) = distance :=
    funext fun candidate => (Text.isLeast_editDistance _ _).unique (least candidate)
  have characters := length_le_utf8ByteSize name
  rw [suggestions_eq_nearest]
  refine ⟨rfl, nearest_prefix _ ?_ available, fun short => ?_⟩
  · split <;> split <;> omega
  · have same : name.utf8ByteSize ≤ 3 ↔ name.length ≤ 3 := ⟨Nat.le_trans characters, short⟩
    simp only [same]

/-- Two names within one edit come before those within two, of which there is only room for one. -/
theorem exMisspelt_nearest :
    let available := ["mane", "name", "nae", "nmae", "game", "nmaes"]
    let distance := fun candidate : String => editDistance "nmae".toList candidate.toList
    suggestions "nmae" available = nearest distance 2 available ∧
      nearest distance 2 available = ["nae", "nmaes", "mane"] := by
  intro available distance
  have nearby := (suggestions_nearest "nmae" available distance
    fun candidate => Text.isLeast_editDistance _ _).2.2 fun short => absurd short (by decide +kernel)
  rw [if_neg (by decide +kernel)] at nearby
  exact ⟨nearby, nearby.symm.trans (by decide +kernel)⟩

/-- For a name of three characters in four bytes one with two other letters is suggested. -/
theorem exUmlaut_not_nearest :
    suggestions "äbc" ["äxy"] ≠
      nearest (fun candidate => editDistance "äbc".toList candidate.toList)
        (if "äbc".length ≤ 3 then 1 else 2) ["äxy"] := by
  rw [nearest_eq]
  decide +kernel

end ConfigTemplate
