import ConfigTemplate.Text.EditDistance
import Mathlib.Order.Bounds.Basic
import Mathlib.Order.MinMax

/-!
# Edit distance as the least number of edits

An edit inserts, deletes or replaces one character anywhere in a text. Edits that are made one after the
other can be made in one pass from the left, which takes as many edits or fewer: an alignment of the two
texts. The cheapest alignments are found by going through the last characters of parts of the texts, and
the rows of the edit distance hold their costs.

Results:
1. `Edits.exists_aligned` and `Aligned.edits`: edits and alignments of two texts.
2. `leastCost_le` and `aligned_leastCost`: the least cost of an alignment.
3. `isLeast_editDistance`: the edit distance is the least number of edits.
-/

namespace ConfigTemplate.Text

/-! ## Edits -/

/-- The second text is the first one with one character inserted, deleted or replaced. -/
inductive Edited : List Char → List Char → Prop
  | insert (front : List Char) (c : Char) (behind : List Char) :
      Edited (front ++ behind) (front ++ c :: behind)
  | delete (front : List Char) (c : Char) (behind : List Char) :
      Edited (front ++ c :: behind) (front ++ behind)
  | replace (front : List Char) (c d : Char) (behind : List Char) :
      Edited (front ++ c :: behind) (front ++ d :: behind)

/-- The number of edits that turns the first text into the second one, one after the other. -/
inductive Edits : Nat → List Char → List Char → Prop
  | none {text : List Char} : Edits 0 text text
  | more {count : Nat} {first middle last : List Char} (edits : Edits count first middle)
      (edited : Edited middle last) : Edits (count + 1) first last

/-- The number of edits on one way through both texts, character by character. -/
inductive Aligned : Nat → List Char → List Char → Prop
  | nil : Aligned 0 [] []
  | keep {count : Nat} {first second : List Char} (c : Char) (further : Aligned count first second) :
      Aligned count (c :: first) (c :: second)
  | insert {count : Nat} {first second : List Char} (c : Char)
      (further : Aligned count first second) : Aligned (count + 1) first (c :: second)
  | delete {count : Nat} {first second : List Char} (c : Char)
      (further : Aligned count first second) : Aligned (count + 1) (c :: first) second
  | replace {count : Nat} {first second : List Char} (c d : Char)
      (further : Aligned count first second) : Aligned (count + 1) (c :: first) (d :: second)

variable {count others : Nat} {first middle second behind : List Char} {c d : Char}

theorem Edited.cons (edited : Edited first second) (c : Char) : Edited (c :: first) (c :: second) := by
  cases edited with
  | insert front d behind => exact .insert (c :: front) d behind
  | delete front d behind => exact .delete (c :: front) d behind
  | replace front d e behind => exact .replace (c :: front) d e behind

theorem Edits.cons (edits : Edits count first second) (c : Char) :
    Edits count (c :: first) (c :: second) := by
  induction edits with
  | none => exact .none
  | more _ edited ih => exact .more ih (edited.cons c)

/-! ## Alignments -/

namespace Aligned

theorem refl (text : List Char) : Aligned 0 text text := by
  induction text with
  | nil => exact .nil
  | cons c text ih => exact .keep c ih

theorem toNil (text : List Char) : Aligned text.length text [] := by
  induction text with
  | nil => exact .nil
  | cons c text ih => exact .delete c ih

theorem length_le (aligned : Aligned count first second) : first.length ≤ second.length + count := by
  induction aligned with
  | nil => exact Nat.le_refl _
  | keep | insert | delete | replace =>
    simp only [List.length_cons]
    omega

theorem append {back : List Char} (aligned : Aligned count first second)
    (further : Aligned others behind back) :
    Aligned (count + others) (first ++ behind) (second ++ back) := by
  induction aligned with
  | nil => simpa using further
  | keep c _ ih => exact .keep c ih
  | insert c _ ih => exact Nat.succ_add _ _ ▸ .insert c ih
  | delete c _ ih => exact Nat.succ_add _ _ ▸ .delete c ih
  | replace c d _ ih => exact Nat.succ_add _ _ ▸ .replace c d ih

/-- The first character of the second text can be cut off, and the first text cut accordingly. -/
theorem uncons (aligned : Aligned count first (d :: second)) :
    ∃ left right n m, first = left ++ right ∧ n + m = count ∧ Aligned n left [d] ∧
      Aligned m right second := by
  generalize whole : d :: second = text at aligned
  induction aligned with
  | nil => cases whole
  | @keep count first _ c further =>
    cases whole
    exact ⟨[d], first, 0, count, rfl, Nat.zero_add _, .keep d .nil, further⟩
  | @insert count first _ c further =>
    cases whole
    exact ⟨[], first, 1, count, rfl, Nat.add_comm _ _, .insert d .nil, further⟩
  | @delete count first _ c further ih =>
    obtain ⟨left, right, n, m, rfl, rfl, one, after⟩ := ih whole
    exact ⟨c :: left, right, n + 1, m, rfl, Nat.succ_add _ _, .delete c one, after⟩
  | @replace count first _ c e further =>
    cases whole
    exact ⟨[c], first, 1, count, rfl, Nat.add_comm _ _, .replace c d .nil, further⟩

/-- The second text can be cut anywhere, and the first one accordingly. -/
theorem split {front back : List Char} (aligned : Aligned count first (front ++ back)) :
    ∃ left right n m, first = left ++ right ∧ n + m = count ∧ Aligned n left front ∧
      Aligned m right back := by
  induction front generalizing count first with
  | nil => exact ⟨[], first, 0, count, rfl, Nat.zero_add _, .nil, aligned⟩
  | cons d front ih =>
    obtain ⟨one, rest, n, m, rfl, rfl, single, further⟩ := aligned.uncons
    obtain ⟨left, right, k, l, rfl, rfl, before, after⟩ := ih further
    exact ⟨one ++ left, right, n + k, l, (List.append_assoc ..).symm, Nat.add_assoc ..,
      single.append before, after⟩

/-- What is aligned with one character can be aligned with any other one, or none, by one more edit. -/
theorem of_singleton (aligned : Aligned count first [c]) (text : List Char)
    (short : text.length ≤ 1) : ∃ n ≤ count + 1, Aligned n first text := by
  have bounded := aligned.length_le
  rw [List.length_singleton] at bounded
  match text, short with
  | [], _ => exact ⟨first.length, by omega, toNil first⟩
  | [d], _ =>
    cases first with
    | nil => exact ⟨1, by omega, .insert d .nil⟩
    | cons e first =>
      rw [List.length_cons] at bounded
      exact ⟨first.length + 1, by omega, .replace e d (toNil first)⟩

theorem edit (aligned : Aligned count first middle) (edited : Edited middle second) :
    ∃ n ≤ count + 1, Aligned n first second := by
  cases edited with
  | insert front c behind =>
    obtain ⟨left, right, n, m, rfl, rfl, before, after⟩ := aligned.split
    exact ⟨n + (m + 1), Nat.le_refl _, before.append (.insert c after)⟩
  | delete front c behind =>
    obtain ⟨left, right, n, m, rfl, rfl, before, after⟩ := aligned.split
    obtain ⟨one, rest, k, l, rfl, rfl, single, after⟩ := after.uncons
    obtain ⟨fewer, bounded, gone⟩ := single.of_singleton [] (Nat.zero_le _)
    exact ⟨n + (fewer + l), by omega, before.append (gone.append after)⟩
  | replace front c d behind =>
    obtain ⟨left, right, n, m, rfl, rfl, before, after⟩ := aligned.split
    obtain ⟨one, rest, k, l, rfl, rfl, single, after⟩ := after.uncons
    obtain ⟨fewer, bounded, other⟩ := single.of_singleton [d] (Nat.le_refl _)
    exact ⟨n + (fewer + l), by omega, before.append (other.append after)⟩

theorem edits (aligned : Aligned count first second) : Edits count first second := by
  induction aligned with
  | nil => exact .none
  | keep c _ ih => exact ih.cons c
  | insert c _ ih => exact .more ih (.insert [] c _)
  | delete c _ ih => exact .more (ih.cons c) (.delete [] c _)
  | replace c d _ ih => exact .more (ih.cons c) (.replace [] c d _)

theorem reverse (aligned : Aligned count first second) :
    Aligned count first.reverse second.reverse := by
  induction aligned with
  | nil => exact .nil
  | keep c _ ih =>
    rw [List.reverse_cons, List.reverse_cons]
    exact ih.append (refl [c])
  | insert c _ ih =>
    rw [List.reverse_cons]
    simpa using ih.append (.insert c .nil)
  | delete c _ ih =>
    rw [List.reverse_cons]
    simpa using ih.append (.delete c .nil)
  | replace c d _ ih =>
    rw [List.reverse_cons, List.reverse_cons]
    exact ih.append (.replace c d .nil)

end Aligned

/-- Edits made one after the other come to an alignment with no more edits. -/
theorem Edits.exists_aligned (edits : Edits count first second) :
    ∃ n ≤ count, Aligned n first second := by
  induction edits with
  | none => exact ⟨0, Nat.le_refl _, .refl _⟩
  | more _ edited ih =>
    obtain ⟨n, bounded, aligned⟩ := ih
    obtain ⟨m, further, aligned⟩ := aligned.edit edited
    exact ⟨m, by omega, aligned⟩

/-! ## The least cost -/

/-- The least number of edits on a way through both texts. -/
def leastCost : List Char → List Char → Nat
  | [], second => second.length
  | c :: first, [] => (c :: first).length
  | c :: first, d :: second =>
    min (min (leastCost (c :: first) second + 1) (leastCost first (d :: second) + 1))
      (if c = d then leastCost first second else leastCost first second + 1)
termination_by first second => first.length + second.length

theorem leastCost_nil (first : List Char) : leastCost first [] = first.length := by
  cases first <;> rw [leastCost]

theorem leastCost_cons_cons (c d : Char) (first second : List Char) :
    leastCost (c :: first) (d :: second) =
      min (min (leastCost (c :: first) second + 1) (leastCost first (d :: second) + 1))
        (if c = d then leastCost first second else leastCost first second + 1) := by
  rw [leastCost]

theorem leastCost_keep_le (c : Char) (first second : List Char) :
    leastCost (c :: first) (c :: second) ≤ leastCost first second := by
  rw [leastCost_cons_cons, if_pos rfl]
  exact Nat.min_le_right _ _

theorem leastCost_insert_le (d : Char) (first second : List Char) :
    leastCost first (d :: second) ≤ leastCost first second + 1 := by
  cases first with
  | nil => rw [leastCost, leastCost, List.length_cons]
  | cons c first =>
    rw [leastCost_cons_cons]
    exact Nat.le_trans (Nat.min_le_left _ _) (Nat.min_le_left _ _)

theorem leastCost_delete_le (c : Char) (first second : List Char) :
    leastCost (c :: first) second ≤ leastCost first second + 1 := by
  cases second with
  | nil => rw [leastCost_nil, leastCost_nil, List.length_cons]
  | cons d second =>
    rw [leastCost_cons_cons]
    exact Nat.le_trans (Nat.min_le_left _ _) (Nat.min_le_right _ _)

theorem leastCost_replace_le (c d : Char) (first second : List Char) :
    leastCost (c :: first) (d :: second) ≤ leastCost first second + 1 := by
  rw [leastCost_cons_cons]
  refine Nat.le_trans (Nat.min_le_right _ _) ?_
  split
  · exact Nat.le_succ _
  · exact Nat.le_refl _

theorem leastCost_le (aligned : Aligned count first second) : leastCost first second ≤ count := by
  induction aligned with
  | nil => rw [leastCost_nil, List.length_nil]
  | keep c _ ih => exact Nat.le_trans (leastCost_keep_le c _ _) ih
  | insert d _ ih => exact Nat.le_trans (leastCost_insert_le d _ _) (Nat.succ_le_succ ih)
  | delete c _ ih => exact Nat.le_trans (leastCost_delete_le c _ _) (Nat.succ_le_succ ih)
  | replace c d _ ih => exact Nat.le_trans (leastCost_replace_le c d _ _) (Nat.succ_le_succ ih)

theorem aligned_leastCost (first second : List Char) :
    Aligned (leastCost first second) first second := by
  induction first, second using leastCost.induct with
  | case1 second =>
    rw [leastCost]
    induction second with
    | nil => exact .nil
    | cons d second ih => exact .insert d ih
  | case2 c first =>
    rw [leastCost_nil]
    exact .toNil _
  | case3 c first d second ihInsert ihDelete ihBoth =>
    rw [leastCost_cons_cons]
    rcases min_choice (min (leastCost (c :: first) second + 1) (leastCost first (d :: second) + 1))
      (if c = d then leastCost first second else leastCost first second + 1) with outer | both
    · rw [outer]
      rcases min_choice (leastCost (c :: first) second + 1) (leastCost first (d :: second) + 1)
        with inserted | deleted
      · rw [inserted]
        exact .insert d ihInsert
      · rw [deleted]
        exact .delete c ihDelete
    · rw [both]
      split
      · rename_i same
        exact same ▸ .keep c ihBoth
      · exact .replace c d ihBoth

/-! ## The rows -/

/-- The costs for the growing parts of the second text. The characters before the parts are given in
reverse, as is the first text. -/
def leastCosts (first : List Char) : List Char → List Char → List Nat
  | _, [] => []
  | front, d :: behind => leastCost first (d :: front) :: leastCosts first (d :: front) behind

theorem extendRow_leastCosts (c : Char) (first front behind : List Char) :
    extendRow c (leastCost (c :: first) front) (leastCost first front) behind
      (leastCosts first front behind) = leastCosts (c :: first) front behind := by
  induction behind generalizing front with
  | nil => rfl
  | cons d behind ih =>
    rw [leastCosts, extendRow, ← leastCost_cons_cons, ih, leastCosts]

theorem nextRow_leastCosts (second : List Char) (c : Char) (first : List Char) :
    nextRow second (leastCost first [] :: leastCosts first [] second) c =
      leastCost (c :: first) [] :: leastCosts (c :: first) [] second := by
  have longer : leastCost first [] + 1 = leastCost (c :: first) [] := by
    rw [leastCost_nil, leastCost_nil, List.length_cons]
  rw [nextRow, longer, extendRow_leastCosts]

theorem foldl_nextRow (second text first : List Char) :
    text.foldl (nextRow second) (leastCost first [] :: leastCosts first [] second) =
      leastCost (text.reverse ++ first) [] :: leastCosts (text.reverse ++ first) [] second := by
  induction text generalizing first with
  | nil => rfl
  | cons c text ih =>
    rw [List.foldl_cons, nextRow_leastCosts, ih, List.reverse_cons, List.append_assoc]
    rfl

/-- Without a first text, the costs are the lengths of the parts. -/
theorem leastCosts_nil (front behind : List Char) :
    leastCosts [] front behind = (List.range behind.length).map (· + (front.length + 1)) := by
  induction behind generalizing front with
  | nil => rfl
  | cons d behind ih =>
    rw [leastCosts, ih, leastCost, List.length_cons, List.length_cons, List.range_succ_eq_map,
      List.map_cons, List.map_map, Nat.zero_add]
    congr 1
    refine List.map_congr_left fun n _ => ?_
    simp only [Function.comp]
    omega

theorem getLast?_leastCosts (first front behind : List Char) :
    (leastCost first front :: leastCosts first front behind).getLast? =
      some (leastCost first (behind.reverse ++ front)) := by
  induction behind generalizing front with
  | nil => rfl
  | cons d behind ih =>
    rw [leastCosts, List.getLast?_cons_cons, ih, List.reverse_cons, List.append_assoc]
    rfl

theorem editDistance_eq_leastCost (first second : List Char) :
    editDistance first second = leastCost first.reverse second.reverse := by
  have start : List.range (second.length + 1) = leastCost [] [] :: leastCosts [] [] second := by
    rw [leastCosts_nil, leastCost_nil, List.range_succ_eq_map]
    rfl
  rw [editDistance, start, foldl_nextRow, getLast?_leastCosts, List.append_nil, List.append_nil]
  rfl

/-- The edit distance is the least number of edits that turns one text into the other. -/
theorem isLeast_editDistance (first second : List Char) :
    IsLeast {count | Edits count first second} (editDistance first second) := by
  rw [editDistance_eq_leastCost]
  constructor
  · have aligned := (aligned_leastCost first.reverse second.reverse).reverse
    rw [List.reverse_reverse, List.reverse_reverse] at aligned
    exact aligned.edits
  · intro count edits
    obtain ⟨n, bounded, aligned⟩ := edits.exists_aligned
    exact Nat.le_trans (leastCost_le aligned.reverse) bounded

end ConfigTemplate.Text
