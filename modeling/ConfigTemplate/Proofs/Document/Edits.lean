import ConfigTemplate.Proofs.Document.Visit

/-!
# Trees by their edits

A tree comes about by appending and removing nodes. What it holds can be said by the edits alone:
below each parent stand the nodes that were appended there and have not been removed, in the order in
which they were appended. The links of the tree agree with these lists as long as no node is removed
twice.

Results:
1. `listed_edited`: the lists behind the links are those that the edits leave.
2. `edited_reflects`: what the tree shows of these lists: its walks, its links and its visits.
-/

namespace ConfigTemplate.Document

/-- A change of a tree. -/
inductive Edit where
  | append (parent : Option NodeId) (content : Content) (line : Nat)
  | remove (id : NodeId)
deriving DecidableEq, Repr

namespace Edit

/-- What is appended, in order: the parent, the content and the line of each node. -/
def additions (edits : List Edit) : List (Option NodeId × Content × Nat) :=
  edits.filterMap fun
    | .append parent content line => some (parent, content, line)
    | .remove _ => none

/-- The nodes that are removed, in order. -/
def removals (edits : List Edit) : List NodeId :=
  edits.filterMap fun
    | .append _ _ _ => none
    | .remove id => some id

/-- When there are `count` nodes, every edit is about nodes that have been appended before it. -/
def Known (count : Nat) : List Edit → Prop
  | [] => True
  | .append parent _ _ :: rest => (∀ above ∈ parent, above < count) ∧ Known (count + 1) rest
  | .remove id :: rest => id < count ∧ Known count rest

/-- The nodes below a parent that edits leave. -/
def remaining (edits : List Edit) (parent : Option NodeId) : List NodeId :=
  (List.range (additions edits).length).filter fun id =>
    (additions edits)[id]?.map Prod.fst = some parent ∧ id ∉ removals edits

variable {edits : List Edit} {parent : Option NodeId} {id : NodeId} {content : Content} {line : Nat}

theorem additions_append (edits : List Edit) (parent : Option NodeId) (content : Content)
    (line : Nat) :
    additions (edits ++ [.append parent content line]) =
      additions edits ++ [(parent, content, line)] := by
  rw [additions, List.filterMap_append]
  rfl

theorem additions_remove (edits : List Edit) (id : NodeId) :
    additions (edits ++ [.remove id]) = additions edits := by
  rw [additions, List.filterMap_append]
  exact List.append_nil _

theorem removals_append (edits : List Edit) (parent : Option NodeId) (content : Content)
    (line : Nat) : removals (edits ++ [.append parent content line]) = removals edits := by
  rw [removals, List.filterMap_append]
  exact List.append_nil _

theorem removals_remove (edits : List Edit) (id : NodeId) :
    removals (edits ++ [.remove id]) = removals edits ++ [id] := by
  rw [removals, List.filterMap_append]
  rfl

theorem known_concat {count : Nat} {edit : Edit} :
    Known count (edits ++ [edit]) ↔
      Known count edits ∧ Known (count + (additions edits).length) [edit] := by
  induction edits generalizing count with
  | nil => simp [Known, additions]
  | cons first rest ih =>
    cases first with
    | append parent content line =>
      have further : count + 1 + (additions rest).length =
          count + (additions (.append parent content line :: rest)).length := by
        show _ = count + ((additions rest).length + 1)
        omega
      rw [List.cons_append, Known, Known, ih, further, and_assoc]
    | remove id =>
      rw [List.cons_append, Known, Known, ih, and_assoc]
      rfl

theorem mem_remaining : id ∈ remaining edits parent ↔
    (additions edits)[id]?.map Prod.fst = some parent ∧ id ∉ removals edits := by
  rw [remaining, List.mem_filter, List.mem_range, decide_eq_true_iff]
  refine ⟨And.right, fun both => ⟨?_, both⟩⟩
  obtain ⟨entry, found, -⟩ := Option.map_eq_some_iff.1 both.1
  exact (List.getElem?_eq_some_iff.1 found).1

/-- Removing a node takes it out of what remains. -/
theorem remaining_remove (edits : List Edit) (id : NodeId) (parent : Option NodeId) :
    remaining (edits ++ [.remove id]) parent = (remaining edits parent).filter (· ≠ id) := by
  rw [remaining, remaining, additions_remove, removals_remove, List.filter_filter]
  refine List.filter_congr fun other _ => ?_
  rw [← Bool.decide_and, decide_eq_decide, List.mem_append, List.mem_singleton, not_or]
  tauto

/-- Appending a node adds it to what remains below its parent. -/
theorem remaining_append (fresh : (additions edits).length ∉ removals edits) :
    remaining (edits ++ [.append parent content line]) =
      Function.update (remaining edits) parent
        (remaining edits parent ++ [(additions edits).length]) := by
  funext other
  have old : ((List.range (additions edits).length).filter fun id =>
      (additions edits ++ [(parent, content, line)])[id]?.map Prod.fst = some other ∧
        id ∉ removals edits) = remaining edits other := by
    refine List.filter_congr fun id inside => ?_
    rw [List.getElem?_append_left (List.mem_range.1 inside)]
  rw [remaining, additions_append, removals_append, List.length_append, List.length_singleton,
    List.range_succ, List.filter_append, old]
  rcases eq_or_ne other parent with rfl | apart
  · simp [fresh]
  · rw [Function.update_of_ne apart]
    simp [apart.symm]

/-- Only nodes that have been appended are removed. -/
theorem lt_of_mem_removals (known : Known 0 edits) (member : id ∈ removals edits) :
    id < (additions edits).length := by
  induction edits using List.reverseRecOn with
  | nil => cases member
  | append_singleton edits edit ih =>
    obtain ⟨knownBefore, last⟩ := known_concat.1 known
    cases edit with
    | append parent content line =>
      rw [removals_append] at member
      rw [additions_append, List.length_append]
      exact Nat.lt_add_right _ (ih knownBefore member)
    | remove other =>
      rw [removals_remove] at member
      rw [additions_remove]
      rcases List.mem_append.1 member with old | new
      · exact ih knownBefore old
      · rw [List.mem_singleton.1 new]
        simpa using last.1

end Edit

open Edit (additions removals remaining Known)

/-- What a node is given when it is appended. -/
def Node.entry (node : Node) : Option NodeId × Content × Nat := (node.parent, node.content, node.line)

namespace Tree

variable {edits : List Edit}

/-- Appending a node leaves what the others have been given. -/
theorem entries_append (tree : Tree) (parent : Option NodeId) (content : Content) (line : Nat) :
    (tree.append parent content line).2.nodes.map Node.entry =
      tree.nodes.map Node.entry ++ [(parent, content, line)] := by
  refine List.ext_getElem? fun id => ?_
  have found := node?_append tree parent content line id
  rw [node?, node?] at found
  rw [List.getElem?_map, found, Option.map_map, List.getElem?_append, List.length_map,
    List.getElem?_map]
  rcases Nat.lt_trichotomy id tree.nodes.length with old | rfl | beyond
  · rw [if_neg (Nat.ne_of_lt old), if_pos old]
    rfl
  · rw [if_pos rfl, if_neg (Nat.lt_irrefl _), Nat.sub_self]
    rfl
  · rw [if_neg (Nat.ne_of_gt beyond), if_neg (Nat.not_lt.2 (Nat.le_of_lt beyond)),
      List.getElem?_eq_none (Nat.le_of_lt beyond)]
    simp [Nat.sub_ne_zero_of_lt beyond]

/-- Carries out an edit. -/
def edit (tree : Tree) : Edit → Tree
  | .append parent content line => (tree.append parent content line).2
  | .remove id => tree.remove id

/-- The tree that edits make out of the empty one. -/
def edited (edits : List Edit) : Tree := edits.foldl edit .empty

theorem edited_concat (edits : List Edit) (last : Edit) :
    edited (edits ++ [last]) = (edited edits).edit last :=
  List.foldl_concat edit .empty last edits

theorem length_edited (edits : List Edit) :
    (edited edits).nodes.length = (additions edits).length := by
  induction edits using List.reverseRecOn with
  | nil => rfl
  | append_singleton edits last ih =>
    rw [edited_concat]
    cases last with
    | append parent content line =>
      rw [Edit.additions_append, edit, length_append, ih, List.length_append]
      rfl
    | remove id => rw [Edit.additions_remove, edit, length_remove, ih]

/-- No edit changes what a node has been given. -/
theorem entry_edited (edits : List Edit) (id : NodeId) :
    ((edited edits).node? id).map Node.entry = (additions edits)[id]? := by
  induction edits using List.reverseRecOn with
  | nil => rfl
  | append_singleton edits last ih =>
    rw [edited_concat]
    cases last with
    | append parent content line =>
      rw [Edit.additions_append, edit, node?, ← List.getElem?_map, entries_append,
        List.getElem?_append, List.getElem?_append, List.length_map, length_edited,
        List.getElem?_map, ← ih]
      rfl
    | remove gone =>
      rw [Edit.additions_remove, edit]
      cases found : (edited edits).node? gone with
      | none => simpa [remove, found] using ih
      | some node =>
        rw [node?_remove found, Option.map_map]
        exact ih

/-- A node that is removed leaves the list of its parent; the other lists do not have it. -/
theorem Listed.remaining_remove_eq {tree : Tree} (listed : tree.Listed (remaining edits))
    {parent : Option NodeId} {id : NodeId} {before behind : List NodeId}
    (split : remaining edits parent = before ++ id :: behind) :
    remaining (edits ++ [.remove id]) =
      Function.update (remaining edits) parent (before ++ behind) := by
  have member : id ∈ remaining edits parent := by simp [split]
  funext other
  rw [Edit.remaining_remove]
  rcases eq_or_ne other parent with rfl | apart
  · have distinct : (before ++ id :: behind).Nodup := split ▸ listed.nodup other
    have others : ∀ inside ∈ before ++ behind, decide (inside ≠ id) = true := by
      intro inside kept
      refine decide_eq_true ?_
      rintro rfl
      exact (List.nodup_cons.1 (List.perm_middle.nodup_iff.1 distinct)).1 kept
    rw [Function.update_self, split, List.filter_append, List.filter_cons_of_neg (by simp),
      ← List.filter_append, List.filter_eq_self.2 others]
  · rw [Function.update_of_ne apart, List.filter_eq_self]
    intro inside inOther
    refine decide_eq_true fun is => apart ?_
    exact listed.parent_unique (is ▸ inOther) member

/-- The lists behind the links are those that the edits leave. -/
theorem listed_edited (known : Known 0 edits) (once : (removals edits).Nodup) :
    (edited edits).Listed (remaining edits) := by
  induction edits using List.reverseRecOn with
  | nil => exact listed_empty
  | append_singleton edits last ih =>
    obtain ⟨knownBefore, there⟩ := Edit.known_concat.1 known
    rw [edited_concat]
    cases last with
    | append parent content line =>
      rw [Edit.removals_append] at once
      have fresh : (additions edits).length ∉ removals edits := fun member =>
        Nat.lt_irrefl _ (Edit.lt_of_mem_removals knownBefore member)
      have places : ∀ above, parent = some above → above < (edited edits).nodes.length := by
        rintro above rfl
        rw [length_edited]
        simpa using there.1 above rfl
      rw [Edit.remaining_append fresh, ← length_edited]
      exact (ih knownBefore once).append places content line
    | remove id =>
      rw [Edit.removals_remove] at once
      have listed := ih knownBefore (List.nodup_append.1 once).1
      have fresh : id ∉ removals edits := fun member =>
        (List.nodup_append.1 once).2.2 id member id (List.mem_singleton_self id) rfl
      obtain ⟨entry, given⟩ : ∃ entry, (additions edits)[id]? = some entry :=
        ⟨_, List.getElem?_eq_getElem (by simpa using there.1)⟩
      have member : id ∈ remaining edits entry.1 :=
        Edit.mem_remaining.2 ⟨by rw [given]; rfl, fresh⟩
      obtain ⟨before, behind, split⟩ := List.append_of_mem member
      rw [listed.remaining_remove_eq split]
      exact listed.remove split

/-- The tree holds what the edits leave. -/
structure Reflects (tree : Tree) (edits : List Edit) : Prop where
  /-- The next node gets the next number. -/
  number : ∀ parent content line, (tree.append parent content line).1 = (additions edits).length
  entry : ∀ id, (tree.node? id).map Node.entry = (additions edits)[id]?
  children : ∀ parent, tree.children parent = remaining edits parent
  neighbours : ∀ parent before id behind, remaining edits parent = before ++ id :: behind →
    tree.prev? id = before.getLast? ∧ tree.next? id = behind.head?
  inverse : ∀ id other, tree.next? id = some other ↔ tree.prev? other = some id
  detached : ∀ id ∈ removals edits, tree.prev? id = none ∧ tree.next? id = none
  /-- A visitor is called as its answers prescribe for the forest that the edits leave. -/
  visits : ∃ F, Grows (remaining edits) (remaining edits none) F ∧
    ∀ (ε σ : Type) (visitor : NodeId → Node → Attempt ε σ Bool) (state : σ),
      ∃ answer, Forest.Visits (tree.CallsNode visitor) answer F state (tree.visit visitor state)

/-- A node with a neighbour is in a list. -/
theorem Listed.split_of_neighbour {tree : Tree} {lists : Option NodeId → List NodeId}
    (listed : tree.Listed lists) {id : NodeId}
    (beside : tree.next? id ≠ none ∨ tree.prev? id ≠ none) :
    ∃ parent before behind, lists parent = before ++ id :: behind := by
  cases found : tree.node? id with
  | none => simp [next?, prev?, found] at beside
  | some node =>
    have member : id ∈ lists node.parent := Decidable.by_contra fun outside => by
      obtain ⟨prev, next⟩ := listed.detached id node found outside
      simp [next?, prev?, found, prev, next] at beside
    exact ⟨node.parent, List.append_of_mem member⟩

theorem Listed.next?_iff_prev? {tree : Tree} {lists : Option NodeId → List NodeId}
    (listed : tree.Listed lists) {id other : NodeId} :
    tree.next? id = some other ↔ tree.prev? other = some id := by
  constructor
  · intro next
    obtain ⟨parent, before, behind, split⟩ :=
      listed.split_of_neighbour (.inl (next ▸ Option.some_ne_none other))
    rw [listed.next?_eq split, List.head?_eq_some_iff] at next
    obtain ⟨rest, rfl⟩ := next
    rw [listed.prev?_eq (List.append_cons before id _ ▸ split), List.getLast?_concat]
  · intro prev
    obtain ⟨parent, before, behind, split⟩ :=
      listed.split_of_neighbour (.inr (prev ▸ Option.some_ne_none id))
    rw [listed.prev?_eq split, List.getLast?_eq_some_iff] at prev
    obtain ⟨rest, rfl⟩ := prev
    rw [← List.append_cons] at split
    rw [listed.next?_eq split, List.head?_cons]

/-- If no node is removed twice, then a tree holds what its edits leave: the lists of nodes, the
links along them, and what visitors are called with. -/
theorem edited_reflects (edits : List Edit) (known : Known 0 edits)
    (once : (removals edits).Nodup) : (edited edits).Reflects edits where
  number parent content line := length_edited edits
  entry := entry_edited edits
  children := (listed_edited known once).children_eq
  neighbours parent before id behind split :=
    ⟨(listed_edited known once).prev?_eq split, (listed_edited known once).next?_eq split⟩
  inverse id other := (listed_edited known once).next?_iff_prev?
  detached id member := by
    have listed := listed_edited known once
    have outside : ∀ parent, id ∉ remaining edits parent := fun parent inside =>
      (Edit.mem_remaining.1 inside).2 member
    constructor
    · refine Decidable.by_contra fun prev => ?_
      obtain ⟨parent, before, behind, split⟩ := listed.split_of_neighbour (.inr prev)
      exact outside parent (by simp [split])
    · refine Decidable.by_contra fun next => ?_
      obtain ⟨parent, before, behind, split⟩ := listed.split_of_neighbour (.inl next)
      exact outside parent (by simp [split])
  visits := by
    have listed := listed_edited known once
    refine ⟨(edited edits).forest, listed.grows, ?_⟩
    intro ε σ visitor state
    exact listed.exists_visits visitor state

/-- Two blocks with texts; the first one and a text of the second one are removed, and a text is
appended below each of them afterwards. -/
def exEdits : List Edit :=
  [.append none (.block "a") 1, .append (some 0) (.text "x") 1, .append none (.block "b") 2,
    .append (some 2) (.text "y") 2, .append (some 2) (.text "z") 3, .remove 0, .remove 3,
    .append (some 0) (.text "u") 4, .append (some 2) (.text "v") 5]

theorem exEdits_reflected : Known 0 exEdits ∧ (removals exEdits).Nodup ∧
    (edited exEdits).children none = [2] ∧ (edited exEdits).children (some 2) = [4, 6] ∧
    (edited exEdits).children (some 0) = [1, 5] ∧ (edited exEdits).next? 4 = some 6 ∧
    (edited exEdits).prev? 6 = some 4 := by
  have known : Known 0 exEdits := by simp [Known, exEdits]
  have once : (removals exEdits).Nodup := by decide
  have reflects := edited_reflects exEdits known once
  have beside : (edited exEdits).next? 4 = some 6 :=
    (reflects.neighbours (some 2) [] 4 [6] (by decide)).2
  refine ⟨known, once, ?_, ?_, ?_, beside, (reflects.inverse 4 6).1 beside⟩
  · rw [reflects.children]
    decide
  · rw [reflects.children]
    decide
  · rw [reflects.children]
    decide

end Tree

end ConfigTemplate.Document
