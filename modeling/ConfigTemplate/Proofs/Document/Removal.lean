import ConfigTemplate.Proofs.Document.Walk

/-!
# Removing a node again

A node that has been removed has no neighbours any more, but it keeps its parent. Removing it once more
makes neighbours of what stands before and behind it, which is nothing on both sides; so the parent loses
its first and its last child. Whatever is still in the list cannot be reached from there on.

Results:
1. `node?_remove_remove`: what a second removal does to the nodes.
2. `remove_remove_eq_iff`: it leaves the tree as it is if no child of the parent is left, and only then.
3. `edited_remove_twice`: what a tree that edits have made shows after a second removal.
-/

namespace ConfigTemplate.Document

namespace Tree

open Edit (additions removals remaining Known)

variable {tree : Tree} {id : NodeId} {parent : Option NodeId} {node : Node}

theorem eq_of_node? {other : Tree} (nodes : ∀ id, tree.node? id = other.node? id)
    (first : tree.first = other.first) (last : tree.last = other.last) : tree = other := by
  cases tree
  cases other
  cases first
  cases last
  congr
  exact List.ext_getElem? nodes

/-! ## The second removal -/

/-- A node without children, if it is the given parent. -/
def childless (parent : Option NodeId) (other : NodeId) (node : Node) : Node :=
  { node with
    firstChild := if parent = some other then none else node.firstChild
    lastChild := if parent = some other then none else node.lastChild }

theorem childless_eq_self {other : NodeId} (noFirst : parent = some other → node.firstChild = none)
    (noLast : parent = some other → node.lastChild = none) :
    childless parent other node = node := by
  by_cases same : parent = some other
  · rw [childless, if_pos same, if_pos same]
    cases node
    cases noFirst same
    cases noLast same
    rfl
  · rw [childless, if_neg same, if_neg same]

/-- What a node is once it has been removed. -/
theorem node?_remove_self (found : tree.node? id = some node) :
    ∃ gone, (tree.remove id).node? id = some gone ∧ gone.parent = node.parent ∧
      gone.prev = none ∧ gone.next = none := by
  rw [node?_remove found, found]
  exact ⟨_, rfl, rfl, if_pos rfl, if_pos rfl⟩

theorem node?_remove_remove (found : tree.node? id = some node) (other : NodeId) :
    ((tree.remove id).remove id).node? other =
      ((tree.remove id).node? other).map (childless node.parent other) := by
  obtain ⟨gone, there, sameParent, noPrev, noNext⟩ := node?_remove_self found
  rw [node?_remove there]
  rcases eq_or_ne id other with rfl | apart
  · rw [there, Option.map_some, Option.map_some]
    simp [relinked, childless, sameParent, noPrev, noNext]
  · congr
    funext shown
    simp [relinked, childless, sameParent, noPrev, noNext, apart]

theorem prev?_remove_remove (found : tree.node? id = some node) (other : NodeId) :
    ((tree.remove id).remove id).prev? other = (tree.remove id).prev? other := by
  rw [prev?, node?_remove_remove found, prev?]
  cases (tree.remove id).node? other <;> rfl

theorem next?_remove_remove (found : tree.node? id = some node) (other : NodeId) :
    ((tree.remove id).remove id).next? other = (tree.remove id).next? other := by
  rw [next?, node?_remove_remove found, next?]
  cases (tree.remove id).node? other <;> rfl

section Known

variable (found : tree.node? id = some node)
  (known : ∀ above, node.parent = some above → above < tree.nodes.length)

include found known

theorem firstChild_remove_remove (other : Option NodeId) :
    ((tree.remove id).remove id).firstChild other =
      if node.parent = other then none else (tree.remove id).firstChild other := by
  obtain ⟨gone, there, sameParent, noPrev, noNext⟩ := node?_remove_self found
  rw [firstChild_remove there (by rwa [sameParent, length_remove]), sameParent, noPrev, noNext]
  simp

theorem lastChild_remove_remove (other : Option NodeId) :
    ((tree.remove id).remove id).lastChild other =
      if node.parent = other then none else (tree.remove id).lastChild other := by
  obtain ⟨gone, there, sameParent, noPrev, noNext⟩ := node?_remove_self found
  rw [lastChild_remove there (by rwa [sameParent, length_remove]), sameParent, noPrev, noNext]
  simp

/-- A second removal changes nothing exactly if the parent has no child left. -/
theorem remove_remove_eq_iff :
    (tree.remove id).remove id = tree.remove id ↔
      (tree.remove id).firstChild node.parent = none ∧
        (tree.remove id).lastChild node.parent = none := by
  have firsts := firstChild_remove_remove found known
  have lasts := lastChild_remove_remove found known
  constructor
  · intro same
    rw [same] at firsts lasts
    exact ⟨(firsts node.parent).trans (if_pos rfl), (lasts node.parent).trans (if_pos rfl)⟩
  · rintro ⟨noFirst, noLast⟩
    refine eq_of_node? (fun other => ?_) ?_ ?_
    · rw [node?_remove_remove found]
      cases there : (tree.remove id).node? other with
      | none => rfl
      | some shown =>
        refine congrArg some (childless_eq_self (fun same => ?_) fun same => ?_)
        · rw [same, firstChild, there] at noFirst
          exact noFirst
        · rw [same, lastChild, there] at noLast
          exact noLast
    · have top := firsts none
      split at top
      · rename_i same
        exact top.trans (same ▸ noFirst).symm
      · exact top
    · have top := lasts none
      split at top
      · rename_i same
        exact top.trans (same ▸ noLast).symm
      · exact top

end Known

theorem siblingsFrom_remove_remove (found : tree.node? id = some node) (room : Nat)
    (start : Option NodeId) :
    ((tree.remove id).remove id).siblingsFrom room start =
      (tree.remove id).siblingsFrom room start := by
  induction room generalizing start with
  | zero => rfl
  | succ room ih =>
    cases start with
    | none => rfl
    | some other => rw [siblingsFrom, siblingsFrom, next?_remove_remove found, ih]

theorem children_remove_remove (found : tree.node? id = some node)
    (known : ∀ above, node.parent = some above → above < tree.nodes.length) :
    ((tree.remove id).remove id).children =
      Function.update (tree.remove id).children node.parent [] := by
  funext other
  rw [children, siblingsFrom_remove_remove found, firstChild_remove_remove found known,
    length_remove]
  rcases eq_or_ne node.parent other with rfl | apart
  · rw [if_pos rfl, Function.update_self]
    cases (tree.remove id).nodes.length <;> rfl
  · rw [if_neg apart, Function.update_of_ne apart.symm]
    rfl

theorem children_eq_nil_iff (there : 0 < tree.nodes.length) :
    tree.children parent = [] ↔ tree.firstChild parent = none := by
  rw [children]
  obtain ⟨room, same⟩ := Nat.exists_eq_add_one.2 there
  rw [same]
  cases tree.firstChild parent <;> simp [siblingsFrom]

/-! ## What a second removal shows -/

/-- Whatever edits come afterwards, the trees show the same nodes below every parent. -/
def Alike (tree other : Tree) : Prop :=
  ∀ later, Known tree.nodes.length later →
    (later.foldl edit tree).children = (later.foldl edit other).children

/-- A second removal shows: at once if a child of the parent could still be reached, and after another
node has been appended if only the last one was left. -/
theorem alike_remove_remove_iff (found : tree.node? id = some node)
    (known : ∀ above, node.parent = some above → above < tree.nodes.length) :
    (tree.remove id).Alike ((tree.remove id).remove id) ↔
      (tree.remove id).remove id = tree.remove id := by
  refine ⟨fun alike => ?_, fun same later _ => by rw [same]⟩
  have there : 0 < (tree.remove id).nodes.length := by
    rw [length_remove]
    exact Nat.zero_lt_of_lt (lt_length_of_node? found)
  have noFirst : (tree.remove id).firstChild node.parent = none := by
    rw [← children_eq_nil_iff there]
    have now := congrFun (alike [] trivial) node.parent
    rw [List.foldl_nil, List.foldl_nil, children_remove_remove found known,
      Function.update_self] at now
    exact now
  refine (remove_remove_eq_iff found known).2 ⟨noFirst, Decidable.by_contra fun last => ?_⟩
  have places : ∀ above, node.parent = some above → above < (tree.remove id).nodes.length := by
    rwa [length_remove]
  -- Behind the last child the new node is not the first one, so it cannot be reached.
  have next : ((tree.remove id).append node.parent (.text "") 1).2.children node.parent =
      (((tree.remove id).remove id).append node.parent (.text "") 1).2.children node.parent :=
    congrFun (alike [.append node.parent (.text "") 1] ⟨places, trivial⟩) node.parent
  have hidden : ((tree.remove id).append node.parent (.text "") 1).2.children node.parent = [] := by
    rw [children_eq_nil_iff (by simp [length_append]), firstChild_append places,
      if_neg fun both => last both.1, noFirst]
  rw [hidden, eq_comm, children_eq_nil_iff (by simp [length_append]),
    firstChild_append (by rwa [length_remove]), lastChild_remove_remove found known, if_pos rfl,
    if_pos ⟨rfl, rfl⟩] at next
  cases next

/-! ## Trees that edits have made -/

/-- What becomes of a tree when a node is removed from below its parent, and then once more. -/
structure RemovesTwice (tree : Tree) (id : NodeId) (parent : Option NodeId) : Prop where
  given : tree.parent? id = some parent
  /-- The first removal leaves no link of the node, so the second one relinks no neighbours. -/
  detached : (tree.remove id).prev? id = none ∧ (tree.remove id).next? id = none
  entry : ∀ other, (((tree.remove id).remove id).node? other).map Node.entry =
    ((tree.remove id).node? other).map Node.entry
  neighbours : ∀ other, ((tree.remove id).remove id).prev? other = (tree.remove id).prev? other ∧
    ((tree.remove id).remove id).next? other = (tree.remove id).next? other
  children : ((tree.remove id).remove id).children =
    Function.update (tree.remove id).children parent []
  unchanged : (tree.remove id).remove id = tree.remove id ↔
    (tree.remove id).firstChild parent = none ∧ (tree.remove id).lastChild parent = none
  shows : (tree.remove id).Alike ((tree.remove id).remove id) ↔
    (tree.remove id).remove id = tree.remove id
  /-- A third removal has nothing left to change. -/
  again : ((tree.remove id).remove id).remove id = (tree.remove id).remove id

theorem Ordered.removesTwice (ordered : tree.Ordered) (found : tree.node? id = some node) :
    tree.RemovesTwice id node.parent := by
  have given : tree.parent? id = some node.parent := by rw [parent?, found]; rfl
  have known := ordered.parent_lt_length given
  obtain ⟨gone, there, sameParent, noPrev, noNext⟩ := node?_remove_self found
  refine ⟨given, ⟨?_, ?_⟩, fun other => ?_, fun other => ?_, children_remove_remove found known,
    remove_remove_eq_iff found known, alike_remove_remove_iff found known, ?_⟩
  · rw [prev?, there]
    exact noPrev
  · rw [next?, there]
    exact noNext
  · rw [node?_remove_remove found, Option.map_map]
    rfl
  · exact ⟨prev?_remove_remove found other, next?_remove_remove found other⟩
  · have knownStill : ∀ above, gone.parent = some above → above < (tree.remove id).nodes.length := by
      rwa [sameParent, length_remove]
    rw [remove_remove_eq_iff there knownStill, sameParent, firstChild_remove_remove found known,
      lastChild_remove_remove found known, if_pos rfl, if_pos rfl]
    exact ⟨rfl, rfl⟩

/-- If no node has been removed twice before, then nothing is left in the list of a node that has been
its only one. -/
theorem remove_remove_eq_iff_alone {edits : List Edit} (known : Known 0 edits)
    (once : (removals edits).Nodup) (present : id ∉ removals edits)
    (found : (edited edits).node? id = some node) :
    ((edited edits).remove id).remove id = (edited edits).remove id ↔
      remaining edits node.parent = [id] := by
  have listed := listed_edited known once
  have given : (additions edits)[id]?.map Prod.fst = some node.parent := by
    rw [← entry_edited, found]
    rfl
  obtain ⟨before, behind, split⟩ := List.append_of_mem (Edit.mem_remaining.2 ⟨given, present⟩)
  have left : ((edited edits).remove id).Listed _ := listed.remove split
  have places := (ordered_edited known).parent_lt_length (congrArg (Option.map Node.parent) found)
  rw [remove_remove_eq_iff found places, left.firstChild, left.lastChild, Function.update_self,
    List.head?_eq_none_iff, List.getLast?_eq_none_iff, and_self, split]
  simp [List.append_eq_singleton_iff]

/-- When a node that edits have left in a tree is removed twice, its parent has no children any more, and
nothing else differs from removing it once. So the tree is the same, and shows the same from there on,
only if no child was left for the parent to lose. -/
theorem edited_remove_twice {edits : List Edit} (known : Known 0 edits)
    (there : id < (additions edits).length) :
    ∃ parent, (edited edits).RemovesTwice id parent ∧
      ((removals edits).Nodup → id ∉ removals edits →
        (((edited edits).remove id).remove id = (edited edits).remove id ↔
          remaining edits parent = [id])) := by
  obtain ⟨node, found⟩ : ∃ node, (edited edits).node? id = some node :=
    ⟨_, List.getElem?_eq_getElem (length_edited edits ▸ there)⟩
  refine ⟨node.parent, (ordered_edited known).removesTwice found, fun once present => ?_⟩
  exact remove_remove_eq_iff_alone known once present found

/-- Three texts, of which the second one has been removed twice: the list is empty, but the first and
the third text are still linked to each other. -/
def exTangled : List Edit :=
  [.append none (.text "x") 1, .append none (.text "y") 1, .append none (.text "z") 1, .remove 1,
    .remove 1]

/-- Removing the third text leads back to the first one as the last of the list; removing it again does
not, which shows when another text is appended. -/
theorem exTangled_removed_twice :
    Known 0 exTangled ∧ 2 < (additions exTangled).length ∧
      ((edited exTangled).remove 2).lastChild none = some 0 ∧
      (((edited exTangled).remove 2).remove 2).children none = [] ∧
      ¬ ((edited exTangled).remove 2).Alike (((edited exTangled).remove 2).remove 2) ∧
      (((edited exTangled).remove 2).remove 2).remove 2 =
        ((edited exTangled).remove 2).remove 2 := by
  have known : Known 0 exTangled := by simp [Known, exTangled]
  have there : 2 < (additions exTangled).length := by decide
  obtain ⟨parent, twice, -⟩ := edited_remove_twice known there
  obtain rfl : none = parent := Option.some.inj twice.given
  have last : ((edited exTangled).remove 2).lastChild none = some 0 := by decide
  refine ⟨known, there, last, ?_, fun alike => ?_, twice.again⟩
  · rw [twice.children, Function.update_self]
  · have lost : ((edited exTangled).remove 2).lastChild none = none :=
      (twice.unchanged.1 (twice.shows.1 alike)).2
    rw [last] at lost
    cases lost

/-- Two texts at the top level. -/
def exPair : List Edit := [.append none (.text "x") 1, .append none (.text "y") 1]

/-- Removing the first of two texts once more takes the other one out of the tree. -/
theorem exPair_not_idempotent :
    Known 0 exPair ∧ ¬ ∀ parent, (((edited exPair).remove 0).remove 0).children parent =
      ((edited exPair).remove 0).children parent :=
  ⟨by simp [Known, exPair], fun same => absurd (same none) (by decide)⟩

end Tree

end ConfigTemplate.Document
