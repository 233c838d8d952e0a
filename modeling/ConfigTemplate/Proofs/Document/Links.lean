import ConfigTemplate.Document.Tree
import Mathlib.Data.List.Perm.Subperm
import Mathlib.Data.List.Range
import Mathlib.Logic.Function.Basic

/-!
# The lists behind the links

A tree keeps the nodes below each parent as a list that is spread over the links of the nodes.
`Listed` says which lists these are. Appending a node adds it at the end of a list, removing one
takes it out of its list, and the walks of the tree yield the lists again.

Results:
1. `Listed.append` and `Listed.remove`: how the two operations change the lists.
2. `Listed.children_eq`: the walk along the children of a parent yields its list.
3. `Listed.forest_eq`: the forest of a tree is the one that its lists make.
-/

namespace ConfigTemplate.Document.Tree

variable {tree : Tree} {id other : NodeId} {parent prev next : Option NodeId} {node : Node}

/-! ## Links after a change -/

theorem node?_eq_none_iff : tree.node? id = none ↔ tree.nodes.length ≤ id :=
  List.getElem?_eq_none_iff

theorem exists_node? (inside : id < tree.nodes.length) : ∃ node, tree.node? id = some node :=
  ⟨_, List.getElem?_eq_getElem inside⟩

theorem lt_length_of_node? (found : tree.node? id = some node) : id < tree.nodes.length :=
  (List.getElem?_eq_some_iff.1 found).1

theorem node?_update (tree : Tree) (id other : NodeId) (change : Node → Node) :
    (tree.update id change).node? other =
      (tree.node? other).map fun node => if id = other then change node else node := by
  rw [node?, update, List.getElem?_modify]
  split
  · rfl
  · simp [node?]

theorem node?_setLastChild (tree : Tree) (parent child : Option NodeId) (other : NodeId) :
    (tree.setLastChild parent child).node? other = (tree.node? other).map fun node =>
      { node with lastChild := if parent = some other then child else node.lastChild } := by
  rcases parent with _ | parent
  · simp [setLastChild, node?]
  · simp only [setLastChild, node?_update, Option.some.injEq]
    congr; funext node
    split <;> rfl

theorem node?_linkNext (tree : Tree) (parent prev next : Option NodeId) (other : NodeId) :
    (tree.linkNext parent prev next).node? other = (tree.node? other).map fun node =>
      { node with
        next := if prev = some other then next else node.next
        firstChild := if prev = none ∧ parent = some other then next else node.firstChild } := by
  rcases prev with _ | prev
  · rcases parent with _ | parent
    · simp [linkNext, setFirstChild, node?]
    · simp only [linkNext, setFirstChild, node?_update]
      congr; funext node
      by_cases same : parent = other <;> simp [same]
  · simp only [linkNext, node?_update]
    congr; funext node
    by_cases same : prev = other <;> simp [same]

theorem node?_linkPrev (tree : Tree) (parent next prev : Option NodeId) (other : NodeId) :
    (tree.linkPrev parent next prev).node? other = (tree.node? other).map fun node =>
      { node with
        prev := if next = some other then prev else node.prev
        lastChild := if next = none ∧ parent = some other then prev else node.lastChild } := by
  rcases next with _ | next
  · rcases parent with _ | parent
    · simp [linkPrev, setLastChild, node?]
    · simp only [linkPrev, setLastChild, node?_update]
      congr; funext node
      by_cases same : parent = other <;> simp [same]
  · simp only [linkPrev, node?_update]
    congr; funext node
    by_cases same : next = other <;> simp [same]

/-- What appending below `parent` makes of a node that is there. -/
def appended (tree : Tree) (parent : Option NodeId) (other : NodeId) (node : Node) : Node :=
  let id := tree.nodes.length
  { node with
    next := if tree.lastChild parent = some other then some id else node.next
    firstChild :=
      if tree.lastChild parent = none ∧ parent = some other then some id else node.firstChild
    lastChild := if parent = some other then some id else node.lastChild }

theorem node?_concat (nodes : List Node) (first last : Option NodeId) (other : NodeId) :
    node? ⟨nodes ++ [node], first, last⟩ other =
      if other = nodes.length then some node else nodes[other]? := by
  rw [node?, List.getElem?_append]
  grind

theorem node?_append (tree : Tree) (parent : Option NodeId) (content : Content) (line : Nat)
    (other : NodeId) :
    (tree.append parent content line).2.node? other =
      (if other = tree.nodes.length then
        some ⟨content, line, parent, tree.lastChild parent, none, none, none⟩
      else tree.node? other).map (tree.appended parent other) := by
  simp only [append, node?_setLastChild, node?_linkNext, node?_concat, Option.map_map]
  rfl

/-- What taking a node out of its list makes of another node. -/
def relinked (id : NodeId) (removed : Node) (other : NodeId) (node : Node) : Node :=
  { node with
    prev := if id = other then none
      else if removed.next = some other then removed.prev else node.prev
    next := if id = other then none
      else if removed.prev = some other then removed.next else node.next
    firstChild :=
      if removed.prev = none ∧ removed.parent = some other then removed.next else node.firstChild
    lastChild :=
      if removed.next = none ∧ removed.parent = some other then removed.prev else node.lastChild }

theorem node?_remove (found : tree.node? id = some node) (other : NodeId) :
    (tree.remove id).node? other = (tree.node? other).map (relinked id node other) := by
  simp only [remove, found, node?_update, node?_linkPrev, node?_linkNext, Option.map_map]
  congr; funext node
  simp only [relinked, Function.comp]
  split <;> rfl

theorem length_setLastChild (tree : Tree) (parent child : Option NodeId) :
    (tree.setLastChild parent child).nodes.length = tree.nodes.length := by
  rcases parent with _ | parent <;> simp [setLastChild, update]

theorem length_linkNext (tree : Tree) (parent prev next : Option NodeId) :
    (tree.linkNext parent prev next).nodes.length = tree.nodes.length := by
  rcases prev with _ | prev <;> rcases parent with _ | parent <;>
    simp [linkNext, setFirstChild, update]

theorem length_linkPrev (tree : Tree) (parent next prev : Option NodeId) :
    (tree.linkPrev parent next prev).nodes.length = tree.nodes.length := by
  rcases next with _ | next
  · exact length_setLastChild tree parent prev
  · simp [linkPrev, update]

theorem length_append (tree : Tree) (parent : Option NodeId) (content : Content) (line : Nat) :
    (tree.append parent content line).2.nodes.length = tree.nodes.length + 1 := by
  simp [append, length_setLastChild, length_linkNext]

theorem length_remove (tree : Tree) (id : NodeId) :
    (tree.remove id).nodes.length = tree.nodes.length := by
  unfold remove
  split
  · rfl
  · simp [update, length_linkNext, length_linkPrev]

/-! ## The ends of a list after a change -/

theorem first_linkNext (tree : Tree) (parent prev next : Option NodeId) :
    (tree.linkNext parent prev next).first =
      if prev = none ∧ parent = none then next else tree.first := by
  rcases prev with _ | prev <;> rcases parent with _ | parent <;> rfl

theorem last_linkPrev (tree : Tree) (parent next prev : Option NodeId) :
    (tree.linkPrev parent next prev).last =
      if next = none ∧ parent = none then prev else tree.last := by
  rcases next with _ | next <;> rcases parent with _ | parent <;> rfl

theorem last_linkNext (tree : Tree) (parent prev next : Option NodeId) :
    (tree.linkNext parent prev next).last = tree.last := by
  rcases prev with _ | prev <;> rcases parent with _ | parent <;> rfl

theorem first_linkPrev (tree : Tree) (parent next prev : Option NodeId) :
    (tree.linkPrev parent next prev).first = tree.first := by
  rcases next with _ | next <;> rcases parent with _ | parent <;> rfl

theorem first_setLastChild (tree : Tree) (parent child : Option NodeId) :
    (tree.setLastChild parent child).first = tree.first := by
  rcases parent with _ | parent <;> rfl

theorem last_setLastChild (tree : Tree) (parent child : Option NodeId) :
    (tree.setLastChild parent child).last = if parent = none then child else tree.last := by
  rcases parent with _ | parent <;> rfl

theorem firstChild_append (known : ∀ p, parent = some p → p < tree.nodes.length)
    (content : Content) (line : Nat) (other : Option NodeId) :
    (tree.append parent content line).2.firstChild other =
      if tree.lastChild parent = none ∧ parent = other then some tree.nodes.length
      else tree.firstChild other := by
  rcases other with _ | other
  · simp [firstChild, append, first_setLastChild, first_linkNext]
  · simp only [firstChild, node?_append, Option.bind_eq_bind]
    by_cases same : other = tree.nodes.length
    · have absent : tree.node? other = none := node?_eq_none_iff.2 (Nat.le_of_eq same.symm)
      have notParent : parent ≠ some other := fun is => Nat.ne_of_lt (known other is) same
      simp [if_pos same, absent, notParent, appended]
    · rcases found : tree.node? other with _ | node
      · have notParent : parent ≠ some other := fun is =>
          absurd (known other is) (Nat.not_lt.2 (node?_eq_none_iff.1 found))
        simp [same, notParent]
      · simp [same, appended]

theorem lastChild_append (known : ∀ p, parent = some p → p < tree.nodes.length)
    (content : Content) (line : Nat) (other : Option NodeId) :
    (tree.append parent content line).2.lastChild other =
      if parent = other then some tree.nodes.length else tree.lastChild other := by
  rcases other with _ | other
  · simp [lastChild, append, last_setLastChild, last_linkNext]
  · simp only [lastChild, node?_append, Option.bind_eq_bind]
    by_cases same : other = tree.nodes.length
    · have absent : tree.node? other = none := node?_eq_none_iff.2 (Nat.le_of_eq same.symm)
      have notParent : parent ≠ some other := fun is => Nat.ne_of_lt (known other is) same
      simp [if_pos same, absent, notParent, appended]
    · rcases found : tree.node? other with _ | node
      · have notParent : parent ≠ some other := fun is =>
          absurd (known other is) (Nat.not_lt.2 (node?_eq_none_iff.1 found))
        simp [same, notParent]
      · simp [same, appended]

theorem firstChild_remove (found : tree.node? id = some node)
    (known : ∀ p, node.parent = some p → p < tree.nodes.length) (other : Option NodeId) :
    (tree.remove id).firstChild other =
      if node.prev = none ∧ node.parent = other then node.next else tree.firstChild other := by
  rcases other with _ | other
  · simp [firstChild, remove, found, update, first_linkPrev, first_linkNext]
  · simp only [firstChild, node?_remove found, Option.bind_eq_bind]
    rcases there : tree.node? other with _ | node
    · have notParent : _ ≠ some other := fun is =>
        absurd (known other is) (Nat.not_lt.2 (node?_eq_none_iff.1 there))
      simp [notParent]
    · simp [relinked]

theorem lastChild_remove (found : tree.node? id = some node)
    (known : ∀ p, node.parent = some p → p < tree.nodes.length) (other : Option NodeId) :
    (tree.remove id).lastChild other =
      if node.next = none ∧ node.parent = other then node.prev else tree.lastChild other := by
  rcases other with _ | other
  · simp [lastChild, remove, found, update, last_linkPrev, last_linkNext]
  · simp only [lastChild, node?_remove found, Option.bind_eq_bind]
    rcases there : tree.node? other with _ | node
    · have notParent : _ ≠ some other := fun is =>
        absurd (known other is) (Nat.not_lt.2 (node?_eq_none_iff.1 there))
      simp [notParent]
    · simp [relinked]

/-! ## Lists -/

/-- `lists` are the lists of the tree: the nodes below each parent, and those at the top level.
Every other node has no neighbours. -/
structure Listed (tree : Tree) (lists : Option NodeId → List NodeId) : Prop where
  firstChild : ∀ parent, tree.firstChild parent = (lists parent).head?
  lastChild : ∀ parent, tree.lastChild parent = (lists parent).getLast?
  linked : ∀ parent before id behind, lists parent = before ++ id :: behind →
    ∃ node, tree.node? id = some node ∧ node.parent = parent ∧
      node.prev = before.getLast? ∧ node.next = behind.head?
  detached : ∀ id node, tree.node? id = some node → id ∉ lists node.parent →
    node.prev = none ∧ node.next = none
  increasing : ∀ parent, (lists parent).Pairwise (· < ·)
  above : ∀ parent, ∀ id ∈ lists (some parent), parent < id

theorem listed_empty : Listed empty fun _ => [] where
  firstChild parent := by cases parent <;> rfl
  lastChild parent := by cases parent <;> rfl
  linked parent before id behind same := by simp at same
  detached id node found := by cases found
  increasing parent := .nil
  above parent id member := by cases member

namespace Listed

variable {lists : Option NodeId → List NodeId} {before behind : List NodeId}

theorem node_of_mem (listed : tree.Listed lists) (member : id ∈ lists parent) :
    ∃ node, tree.node? id = some node ∧ node.parent = parent := by
  obtain ⟨before, behind, split⟩ := List.append_of_mem member
  obtain ⟨node, found, same, -⟩ := listed.linked parent before id behind split
  exact ⟨node, found, same⟩

theorem lt_length (listed : tree.Listed lists) (member : id ∈ lists parent) :
    id < tree.nodes.length := by
  obtain ⟨node, found, -⟩ := listed.node_of_mem member
  exact lt_length_of_node? found

/-- A node is in one list at most. -/
theorem parent_unique (listed : tree.Listed lists) (member : id ∈ lists parent)
    (also : id ∈ lists next) : parent = next := by
  obtain ⟨node, found, rfl⟩ := listed.node_of_mem member
  obtain ⟨node, again, rfl⟩ := listed.node_of_mem also
  cases found.symm.trans again
  rfl

/-- Only a node of the tree has nodes below it. -/
theorem parent_lt_length (listed : tree.Listed lists) {p : NodeId} (member : id ∈ lists (some p)) :
    p < tree.nodes.length := by
  refine Nat.not_le.1 fun beyond => ?_
  have first := listed.firstChild (some p)
  have absent : tree.node? p = none := node?_eq_none_iff.2 beyond
  rw [Tree.firstChild, absent] at first
  rw [List.head?_eq_none_iff.1 first.symm] at member
  cases member

theorem nodup (listed : tree.Listed lists) (parent : Option NodeId) : (lists parent).Nodup :=
  (listed.increasing parent).imp fun less => Nat.ne_of_lt less

theorem mem_of_lastChild (listed : tree.Listed lists) (last : tree.lastChild parent = some id) :
    id ∈ lists parent :=
  List.mem_of_getLast? (listed.lastChild parent ▸ last)

/-- The last node of a list has none behind it. -/
theorem lastChild_ne (listed : tree.Listed lists)
    (split : lists parent = before ++ id :: other :: behind) : tree.lastChild parent ≠ some id := by
  have distinct := listed.nodup parent
  rw [listed.lastChild, split]
  rw [split] at distinct
  intro last
  have member : id ∈ other :: behind := List.mem_of_getLast? (by simpa using last)
  exact (List.nodup_cons.1 (List.nodup_append.1 distinct).2.1).1 member

/-- The last node of the list and the new one become neighbours. -/
theorem linked_append (listed : tree.Listed lists) (content : Content) (line : Nat)
    (place : lists parent ++ [tree.nodes.length] = before ++ id :: behind) :
    ∃ node, (tree.append parent content line).2.node? id = some node ∧ node.parent = parent ∧
      node.prev = before.getLast? ∧ node.next = behind.head? := by
  rw [node?_append]
  rcases List.eq_nil_or_concat behind with rfl | ⟨behind, last, rfl⟩
  · obtain ⟨rfl, new⟩ := List.append_inj' place rfl
    obtain rfl : tree.nodes.length = id := by simpa using new
    have notLast : (lists parent).getLast? ≠ some tree.nodes.length := fun last =>
      Nat.lt_irrefl _ (listed.lt_length (List.mem_of_getLast? last))
    simp [appended, listed.lastChild, notLast]
  · rw [List.concat_eq_append, ← List.cons_append, ← List.append_assoc] at place
    obtain ⟨old, new⟩ := List.append_inj' place rfl
    obtain rfl : tree.nodes.length = last := by simpa using new
    obtain ⟨node, found, rfl, prev, next⟩ := listed.linked parent before id behind old
    have notNew := Nat.ne_of_lt (lt_length_of_node? found)
    rcases behind with _ | ⟨second, behind⟩
    · have last : tree.lastChild node.parent = some id := by
        rw [listed.lastChild, old]
        simp
      simp [notNew, found, appended, prev, last]
    · simp [notNew, found, appended, prev, next, listed.lastChild_ne old]

/-- Appending a node adds it at the end of the list of its parent. -/
theorem append (listed : tree.Listed lists)
    (known : ∀ p, parent = some p → p < tree.nodes.length) (content : Content) (line : Nat) :
    (tree.append parent content line).2.Listed
      (Function.update lists parent (lists parent ++ [tree.nodes.length])) where
  firstChild other := by
    rw [firstChild_append known, listed.firstChild, listed.lastChild]
    by_cases same : parent = other
    · subst same
      cases lists parent <;> simp
    · simp [same, Function.update_of_ne (Ne.symm same)]
  lastChild other := by
    rw [lastChild_append known, listed.lastChild]
    by_cases same : parent = other
    · subst same
      simp
    · simp [same, Function.update_of_ne (Ne.symm same)]
  linked other before id behind split := by
    by_cases same : other = parent
    · subst same
      rw [Function.update_self] at split
      exact listed.linked_append content line split
    · rw [Function.update_of_ne same] at split
      rw [node?_append]
      obtain ⟨node, found, rfl, prev, next⟩ := listed.linked other before id behind split
      have old := lt_length_of_node? found
      have notLast : tree.lastChild parent ≠ some id := fun last =>
        same (listed.parent_unique (split ▸ by simp) (listed.mem_of_lastChild last))
      simp [Nat.ne_of_lt old, found, appended, prev, next, notLast]
  detached id node found absent := by
    rw [node?_append] at found
    split at found
    · rename_i new
      cases found
      exact absurd (by simp [appended, new]) absent
    · obtain ⟨old, there, rfl⟩ := Option.map_eq_some_iff.1 found
      have outside : id ∉ lists old.parent := fun member => absent (by
        by_cases same : old.parent = parent
        · subst same
          simp [appended, member]
        · simp [appended, Function.update_of_ne same, member])
      have notLast : tree.lastChild parent ≠ some id := fun last => by
        obtain ⟨node, again, rfl⟩ := listed.node_of_mem (listed.mem_of_lastChild last)
        cases there.symm.trans again
        exact outside (listed.mem_of_lastChild last)
      simpa [appended, notLast] using listed.detached id old there outside
  increasing other := by
    by_cases same : other = parent
    · subst same
      rw [Function.update_self]
      refine List.pairwise_append.2 ⟨listed.increasing other, List.pairwise_singleton _ _, ?_⟩
      intro id member new isNew
      rw [List.mem_singleton.1 isNew]
      exact listed.lt_length member
    · rw [Function.update_of_ne same]
      exact listed.increasing other
  above p id member := by
    by_cases same : some p = parent
    · subst same
      rw [Function.update_self] at member
      rcases List.mem_append.1 member with old | new
      · exact listed.above p id old
      · rw [List.mem_singleton.1 new]
        exact known p rfl
    · rw [Function.update_of_ne same] at member
      exact listed.above p id member

/-- Where a node stands in a list that is made of two. -/
theorem split_append {left right : List NodeId}
    (place : before ++ behind = left ++ other :: right) :
    (∃ middle, left = before ++ middle ∧ behind = middle ++ other :: right) ∨
      ∃ middle, before = left ++ other :: middle ∧ right = middle ++ behind := by
  rcases List.append_eq_append_iff.1 place with ⟨middle, rfl, rfl⟩ | ⟨middle, rfl, rest⟩
  · exact .inl ⟨middle, rfl, rfl⟩
  · rcases List.cons_eq_append_iff.1 rest with ⟨rfl, rfl⟩ | ⟨middle, rfl, rfl⟩
    · exact .inl ⟨[], by simp, rfl⟩
    · exact .inr ⟨middle, rfl, rfl⟩

/-- The nodes around one that is removed become neighbours. -/
theorem linked_remove (listed : tree.Listed lists) (found : tree.node? id = some node)
    (prev : node.prev = before.getLast?) (next : node.next = behind.head?)
    (split : lists node.parent = before ++ id :: behind) {left right : List NodeId}
    (place : before ++ behind = left ++ other :: right) :
    ∃ neighbour, (tree.remove id).node? other = some neighbour ∧
      neighbour.parent = node.parent ∧ neighbour.prev = left.getLast? ∧
      neighbour.next = right.head? := by
  have distinct := split ▸ listed.nodup node.parent
  have apart := List.nodup_append.1 distinct
  rw [node?_remove found]
  rcases split_append place with ⟨middle, rfl, rfl⟩ | ⟨middle, rfl, rfl⟩
  · obtain ⟨neighbour, there, above, old, kept⟩ :=
      listed.linked node.parent (before ++ id :: middle) other right (by simp [split])
    have differs : id ≠ other := by grind
    have notPrev : before.getLast? ≠ some other := fun last => by
      have := List.mem_of_getLast? last
      grind
    rcases middle with _ | ⟨first, middle⟩
    · simp [there, relinked, above, prev, next, kept, differs, notPrev]
    · have notFirst : first ≠ other := by grind
      simp [there, relinked, above, prev, next, old, kept, differs, notPrev, notFirst]
  · obtain ⟨neighbour, there, above, kept, old⟩ :=
      listed.linked node.parent left other (middle ++ id :: behind) (by simp [split])
    have differs : id ≠ other := by grind
    have notNext : behind.head? ≠ some other := fun first => by
      have := List.mem_of_head? first
      grind
    rcases middle with _ | ⟨first, middle⟩
    · simp [there, relinked, above, prev, next, kept, differs, notNext]
    · have notLast : (first :: middle).getLast? ≠ some other := fun last => by
        have := List.mem_of_getLast? last
        grind
      simp [there, relinked, above, prev, next, kept, old, differs, notNext, notLast]

/-- Removing a node takes it out of its list. -/
theorem remove (listed : tree.Listed lists) (split : lists parent = before ++ id :: behind) :
    (tree.remove id).Listed (Function.update lists parent (before ++ behind)) := by
  obtain ⟨node, found, rfl, prev, next⟩ := listed.linked parent before id behind split
  have member : id ∈ lists node.parent := by simp [split]
  have known : ∀ p, node.parent = some p → p < tree.nodes.length := fun p same =>
    listed.parent_lt_length (same ▸ member)
  have fewer : ∀ x, x ∈ before ++ behind → x ∈ lists node.parent := fun x inside => by
    rw [split]
    exact List.mem_append.2 ((List.mem_append.1 inside).imp_right (List.mem_cons_of_mem _))
  have isPrev : ∀ x, node.prev = some x → x ∈ lists node.parent := fun x same =>
    fewer x (List.mem_append_left _ (List.mem_of_getLast? (prev ▸ same)))
  have isNext : ∀ x, node.next = some x → x ∈ lists node.parent := fun x same =>
    fewer x (List.mem_append_right _ (List.mem_of_head? (next ▸ same)))
  constructor
  case firstChild =>
    intro other
    rw [firstChild_remove found known, listed.firstChild, prev, next]
    by_cases same : node.parent = other
    · subst same
      cases before <;> simp [split]
    · simp [same, Function.update_of_ne (Ne.symm same)]
  case lastChild =>
    intro other
    rw [lastChild_remove found known, listed.lastChild, prev, next]
    by_cases same : node.parent = other
    · subst same
      cases behind <;> simp [split]
    · simp [same, Function.update_of_ne (Ne.symm same)]
  case linked =>
    intro above left other right place
    by_cases same : above = node.parent
    · subst same
      rw [Function.update_self] at place
      exact listed.linked_remove found prev next split place
    · rw [Function.update_of_ne same] at place
      obtain ⟨kept, there, rfl, links⟩ := listed.linked above left other right place
      have elsewhere : ∀ x, x ∈ lists node.parent → x ≠ other := by
        rintro x inside rfl
        exact same (listed.parent_unique (by simp [place]) inside)
      have notPrev : node.prev ≠ some other := fun is => elsewhere _ (isPrev _ is) rfl
      have notNext : node.next ≠ some other := fun is => elsewhere _ (isNext _ is) rfl
      simp [node?_remove found, there, relinked, elsewhere id member, notPrev, notNext, links]
  case detached =>
    intro other kept there absent
    rw [node?_remove found] at there
    obtain ⟨old, was, rfl⟩ := Option.map_eq_some_iff.1 there
    by_cases same : id = other
    · simp [relinked, same]
    · have outside : other ∉ lists old.parent := fun inside => absent (by
        by_cases beside : old.parent = node.parent
        · have remains : other ∈ before ++ behind := by
            rw [beside, split] at inside
            grind
          simpa [relinked, beside] using remains
        · simpa [relinked, Function.update_of_ne beside] using inside)
      have elsewhere : other ∉ lists node.parent := fun inside => by
        obtain ⟨node', again, same⟩ := listed.node_of_mem inside
        cases was.symm.trans again
        exact outside (same ▸ inside)
      have notPrev : node.prev ≠ some other := fun is => elsewhere (isPrev _ is)
      have notNext : node.next ≠ some other := fun is => elsewhere (isNext _ is)
      simpa [relinked, same, notPrev, notNext] using listed.detached other old was outside
  case increasing =>
    intro other
    by_cases same : other = node.parent
    · subst same
      rw [Function.update_self]
      have increasing := split ▸ listed.increasing node.parent
      exact increasing.sublist (List.Sublist.append_left (List.sublist_cons_self _ _) _)
    · rw [Function.update_of_ne same]
      exact listed.increasing other
  case above =>
    intro p other inside
    by_cases same : some p = node.parent
    · rw [← same, Function.update_self] at inside
      exact listed.above p other (same ▸ fewer other inside)
    · rw [Function.update_of_ne same] at inside
      exact listed.above p other inside

/-! ## Walks -/

theorem next?_eq (listed : tree.Listed lists) (split : lists parent = before ++ id :: behind) :
    tree.next? id = behind.head? := by
  obtain ⟨node, found, -, -, next⟩ := listed.linked parent before id behind split
  simp [next?, found, next]

theorem prev?_eq (listed : tree.Listed lists) (split : lists parent = before ++ id :: behind) :
    tree.prev? id = before.getLast? := by
  obtain ⟨node, found, -, prev, -⟩ := listed.linked parent before id behind split
  simp [prev?, found, prev]

theorem siblingsFrom_eq (listed : tree.Listed lists) {room : Nat}
    (split : lists parent = before ++ behind) (enough : behind.length ≤ room) :
    tree.siblingsFrom room behind.head? = behind := by
  induction behind generalizing before room with
  | nil => cases room <;> rfl
  | cons id rest ih =>
    cases room with
    | zero => cases enough
    | succ room =>
      have further := ih (List.append_cons before id rest ▸ split) (Nat.le_of_succ_le_succ enough)
      rw [List.head?_cons, siblingsFrom, listed.next?_eq split, further]

theorem length_le (listed : tree.Listed lists) (parent : Option NodeId) :
    (lists parent).length ≤ tree.nodes.length := by
  have inRange : lists parent ⊆ List.range tree.nodes.length := fun id member =>
    List.mem_range.2 (listed.lt_length member)
  simpa using ((listed.nodup parent).subperm inRange).length_le

theorem children_eq (listed : tree.Listed lists) (parent : Option NodeId) :
    tree.children parent = lists parent := by
  rw [children, listed.firstChild]
  exact listed.siblingsFrom_eq (List.nil_append _).symm (listed.length_le parent)

end Listed

/-- The forest of the given outermost nodes with the listed nodes below them; `room` bounds its
height. -/
def grow (lists : Option NodeId → List NodeId) : Nat → List NodeId → Forest NodeId
  | 0, _ => .nil
  | room + 1, ids =>
    ids.foldr (fun id rest => .cons id (grow lists room (lists (some id))) rest) .nil

theorem grow_nil (lists : Option NodeId → List NodeId) (room : Nat) :
    grow lists room [] = .nil := by
  cases room <;> rfl

theorem grow_cons (lists : Option NodeId → List NodeId) (room : Nat) (id : NodeId)
    (rest : List NodeId) :
    grow lists (room + 1) (id :: rest) =
      .cons id (grow lists room (lists (some id))) (grow lists (room + 1) rest) := rfl

namespace Listed

variable {lists : Option NodeId → List NodeId} {before behind : List NodeId}

/-- Numbers grow along every link, so a walk from `bound` on needs only the room that is left. -/
theorem forestFrom_eq (listed : tree.Listed lists) {bound height room : Nat}
    (split : lists parent = before ++ behind) (beyond : ∀ id ∈ behind, bound ≤ id)
    (enough : tree.nodes.length ≤ room + bound) (high : tree.nodes.length ≤ height + bound) :
    tree.forestFrom room behind.head? = grow lists height behind := by
  induction room generalizing parent before behind bound height with
  | zero =>
    cases behind with
    | nil => rw [grow_nil]; rfl
    | cons id rest =>
      have member : id ∈ lists parent := by simp [split]
      have := Nat.lt_of_lt_of_le (listed.lt_length member) enough
      have := beyond id List.mem_cons_self
      omega
  | succ room ih =>
    cases behind with
    | nil => rw [grow_nil]; rfl
    | cons id rest =>
      have member : id ∈ lists parent := by simp [split]
      have atLeast := beyond id List.mem_cons_self
      have inside := Nat.lt_of_lt_of_le (listed.lt_length member) high
      obtain ⟨height, rfl⟩ : ∃ less, height = less + 1 := ⟨height - 1, by omega⟩
      have increasing := split ▸ listed.increasing parent
      have later := (List.pairwise_cons.1 (List.pairwise_append.1 increasing).2.1).1
      rw [List.head?_cons, forestFrom, grow_cons, listed.next?_eq split, listed.firstChild]
      have below := ih (List.nil_append _).symm (listed.above id) (by omega)
        (Nat.le_trans high (by omega : height + 1 + bound ≤ height + (id + 1)))
      have after := ih (List.append_cons before id rest ▸ split) later (by omega)
        (Nat.le_trans high (by omega : height + 1 + bound ≤ height + 1 + (id + 1)))
      rw [below, after]

theorem forest_eq (listed : tree.Listed lists) :
    tree.forest = grow lists tree.nodes.length (lists none) := by
  have start := listed.firstChild none
  rw [forest, show tree.first = _ from start]
  exact listed.forestFrom_eq (List.nil_append _).symm (fun _ _ => Nat.zero_le _) (Nat.le_refl _)
    (Nat.le_refl _)

end Listed

end ConfigTemplate.Document.Tree
