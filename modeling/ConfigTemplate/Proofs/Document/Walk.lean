import ConfigTemplate.Proofs.Document.Edits

/-!
# Walking along the links

A walk over a tree follows its links: below each node from its first child, then to the node behind
it. In a tree that edits have made, every link leads to a node with the same parent and further on
in the order of appending, also where nodes have been removed more than once. So every walk comes to
an end within the room that there is for it.

Results:
1. `ordered_edited`: the links of a tree that edits have made.
2. `Ordered.walk_levels`: the nodes that such a tree shows are those of the walk along its links.
-/

namespace ConfigTemplate.Document

namespace Tree

open Edit (Known)

variable {tree : Tree} {id other : NodeId} {parent : Option NodeId} {node : Node}
  {content : Content} {line : Nat}

/-! ## The links -/

/-- The parent that a node has been given, which is none for one of the top-level list. -/
def parent? (tree : Tree) (id : NodeId) : Option (Option NodeId) :=
  (tree.node? id).map Node.parent

/-- The nodes have been given the same parent. -/
def Siblings (tree : Tree) (id other : NodeId) : Prop :=
  ∃ parent, tree.parent? id = some parent ∧ tree.parent? other = some parent

/-- Every link leads to a node with the same parent, and the ones forth to nodes further on. -/
structure Ordered (tree : Tree) : Prop where
  above : ∀ id parent, tree.parent? id = some (some parent) → parent < id
  next : ∀ id other, tree.next? id = some other → id < other ∧ tree.Siblings id other
  prev : ∀ id other, tree.prev? id = some other → other < id ∧ tree.Siblings id other
  first : ∀ parent child, tree.firstChild parent = some child → tree.parent? child = some parent
  last : ∀ parent child, tree.lastChild parent = some child → tree.parent? child = some parent

theorem lt_length_of_parent? (given : tree.parent? id = some parent) :
    id < tree.nodes.length := by
  obtain ⟨node, found, -⟩ := Option.map_eq_some_iff.1 given
  exact lt_length_of_node? found

theorem ordered_empty : Ordered empty where
  above id parent given := by cases given
  next id other link := by cases link
  prev id other link := by cases link
  first parent child link := by cases parent <;> cases link
  last parent child link := by cases parent <;> cases link

theorem parent?_append (tree : Tree) (parent : Option NodeId) (content : Content) (line : Nat)
    (id : NodeId) :
    (tree.append parent content line).2.parent? id =
      if id = tree.nodes.length then some parent else tree.parent? id := by
  rw [parent?, node?_append, Option.map_map]
  split <;> rfl

theorem parent?_remove (tree : Tree) (gone id : NodeId) :
    (tree.remove gone).parent? id = tree.parent? id := by
  cases found : tree.node? gone with
  | none => rw [remove, found]
  | some node =>
    rw [parent?, node?_remove found, Option.map_map]
    rfl

/-- A new node follows the last one of its list; the other links forth stay. -/
theorem next?_append (link : (tree.append parent content line).2.next? id = some other) :
    tree.next? id = some other ∨
      (tree.lastChild parent = some id ∧ other = tree.nodes.length) := by
  rw [next?, node?_append] at link
  obtain ⟨after, found, link⟩ := Option.bind_eq_some_iff.1 link
  obtain ⟨before, found, rfl⟩ := Option.map_eq_some_iff.1 found
  grind [appended, next?]

theorem prev?_append (link : (tree.append parent content line).2.prev? id = some other) :
    tree.prev? id = some other ∨
      (id = tree.nodes.length ∧ tree.lastChild parent = some other) := by
  rw [prev?, node?_append] at link
  obtain ⟨after, found, link⟩ := Option.bind_eq_some_iff.1 link
  obtain ⟨before, found, rfl⟩ := Option.map_eq_some_iff.1 found
  grind [appended, prev?]

/-- The nodes around one that is removed become neighbours; the other links stay or go. -/
theorem next?_remove {gone : NodeId} (removed : tree.node? gone = some node)
    (link : (tree.remove gone).next? id = some other) :
    tree.next? id = some other ∨ (node.prev = some id ∧ node.next = some other) := by
  rw [next?, node?_remove removed] at link
  obtain ⟨after, found, link⟩ := Option.bind_eq_some_iff.1 link
  obtain ⟨before, found, rfl⟩ := Option.map_eq_some_iff.1 found
  grind [relinked, next?]

theorem prev?_remove {gone : NodeId} (removed : tree.node? gone = some node)
    (link : (tree.remove gone).prev? id = some other) :
    tree.prev? id = some other ∨ (node.next = some id ∧ node.prev = some other) := by
  rw [prev?, node?_remove removed] at link
  obtain ⟨after, found, link⟩ := Option.bind_eq_some_iff.1 link
  obtain ⟨before, found, rfl⟩ := Option.map_eq_some_iff.1 found
  grind [relinked, prev?]

namespace Ordered

theorem append (ordered : tree.Ordered) (known : ∀ above, parent = some above →
    above < tree.nodes.length) (content : Content) (line : Nat) :
    (tree.append parent content line).2.Ordered := by
  have old : ∀ {id : NodeId} {given : Option NodeId}, tree.parent? id = some given →
      (tree.append parent content line).2.parent? id = some given := by
    intro id given found
    rw [parent?_append, if_neg (Nat.ne_of_lt (lt_length_of_parent? found)), found]
  have oldSiblings : ∀ {id other : NodeId}, tree.Siblings id other →
      (tree.append parent content line).2.Siblings id other :=
    fun ⟨given, left, right⟩ => ⟨given, old left, old right⟩
  have new : (tree.append parent content line).2.parent? tree.nodes.length = some parent := by
    rw [parent?_append, if_pos rfl]
  constructor
  case above =>
    intro id above given
    rw [parent?_append] at given
    split at given
    · rename_i isNew
      cases given
      exact isNew ▸ known above rfl
    · exact ordered.above id above given
  case next =>
    intro id other link
    rcases next?_append link with kept | ⟨last, rfl⟩
    · exact (ordered.next id other kept).imp_right oldSiblings
    · have given := ordered.last parent id last
      exact ⟨lt_length_of_parent? given, parent, old given, new⟩
  case prev =>
    intro id other link
    rcases prev?_append link with kept | ⟨rfl, last⟩
    · exact (ordered.prev id other kept).imp_right oldSiblings
    · have given := ordered.last parent other last
      exact ⟨lt_length_of_parent? given, parent, new, old given⟩
  case first =>
    intro above child link
    rw [firstChild_append known] at link
    split at link
    · rename_i place
      cases link
      exact place.2 ▸ new
    · exact old (ordered.first above child link)
  case last =>
    intro above child link
    rw [lastChild_append known] at link
    split at link
    · rename_i place
      cases link
      exact place ▸ new
    · exact old (ordered.last above child link)

theorem parent_lt_length (ordered : tree.Ordered) (given : tree.parent? id = some parent) :
    ∀ above, parent = some above → above < tree.nodes.length := by
  rintro above rfl
  exact (ordered.above id above given).trans (lt_length_of_parent? given)

theorem remove (ordered : tree.Ordered) (gone : NodeId) : (tree.remove gone).Ordered := by
  cases found : tree.node? gone with
  | none => rwa [Tree.remove, found]
  | some node =>
    have given : tree.parent? gone = some node.parent := by rw [parent?, found]; rfl
    have known := ordered.parent_lt_length given
    -- The neighbours of the node are nodes with its parent, on both of its sides.
    have behind : ∀ other, node.next = some other →
        gone < other ∧ tree.parent? other = some node.parent := by
      intro other link
      have linked : tree.next? gone = some other := by rw [next?, found]; exact link
      obtain ⟨later, parent, mine, same⟩ := ordered.next gone other linked
      exact ⟨later, by rw [same, ← mine, given]⟩
    have before : ∀ other, node.prev = some other →
        other < gone ∧ tree.parent? other = some node.parent := by
      intro other link
      have linked : tree.prev? gone = some other := by rw [prev?, found]; exact link
      obtain ⟨earlier, parent, mine, same⟩ := ordered.prev gone other linked
      exact ⟨earlier, by rw [same, ← mine, given]⟩
    constructor
    case above =>
      intro id above given
      rw [parent?_remove] at given
      exact ordered.above id above given
    case next =>
      intro id other link
      simp only [Siblings, parent?_remove]
      rcases next?_remove found link with kept | ⟨left, right⟩
      · exact ordered.next id other kept
      · exact ⟨(before id left).1.trans (behind other right).1, node.parent, (before id left).2,
          (behind other right).2⟩
    case prev =>
      intro id other link
      simp only [Siblings, parent?_remove]
      rcases prev?_remove found link with kept | ⟨right, left⟩
      · exact ordered.prev id other kept
      · exact ⟨(before other left).1.trans (behind id right).1, node.parent, (behind id right).2,
          (before other left).2⟩
    case first =>
      intro above child link
      rw [firstChild_remove found known] at link
      rw [parent?_remove]
      split at link
      · rename_i place
        exact place.2 ▸ (behind child link).2
      · exact ordered.first above child link
    case last =>
      intro above child link
      rw [lastChild_remove found known] at link
      rw [parent?_remove]
      split at link
      · rename_i place
        exact place.2 ▸ (before child link).2
      · exact ordered.last above child link

end Ordered

/-- The links of a tree that edits have made, also where a node has been removed twice. -/
theorem ordered_edited {edits : List Edit} (known : Known 0 edits) : (edited edits).Ordered := by
  induction edits using List.reverseRecOn with
  | nil => exact ordered_empty
  | append_singleton edits last ih =>
    obtain ⟨knownBefore, there⟩ := Edit.known_concat.1 known
    rw [edited_concat]
    cases last with
    | append parent content line =>
      refine (ih knownBefore).append ?_ content line
      rintro above rfl
      rw [length_edited]
      simpa using there.1 above rfl
    | remove id => exact (ih knownBefore).remove id

/-! ## The walk -/

/-- The nodes from a given one to the end of its list, each before all nodes below it: what a walk
along the links comes by. -/
inductive Walk (tree : Tree) : Option NodeId → List Node → Prop
  | stop : Walk tree none []
  | node {id : NodeId} {node : Node} {below behind : List Node} (found : tree.node? id = some node)
      (inside : Walk tree node.firstChild below) (after : Walk tree node.next behind) :
      Walk tree (some id) (node :: (below ++ behind))

variable {start : Option NodeId} {nodes : List Node}

theorem Walk.unique {others : List Node} (walk : tree.Walk start nodes)
    (again : tree.Walk start others) : nodes = others := by
  induction walk generalizing others with
  | stop =>
    cases again
    rfl
  | node found _ _ belowIh behindIh =>
    cases again with
    | node alsoFound inside after =>
      cases found.symm.trans alsoFound
      rw [belowIh inside, behindIh after]

/-- The nodes from a given one to the end of its list, with all nodes below them, as the links lead to
them. -/
inductive Grown (tree : Tree) : Option NodeId → Forest NodeId → Prop
  | stop : Grown tree none .nil
  | node {id : NodeId} {node : Node} {below behind : Forest NodeId}
      (found : tree.node? id = some node) (inside : Grown tree node.firstChild below)
      (after : Grown tree node.next behind) : Grown tree (some id) (.cons id below behind)

/-- There is room for all nodes from the start on, so no bounded walk is cut off. -/
theorem Ordered.grown_forestFrom (ordered : tree.Ordered) {room : Nat}
    (place : ∀ id, start = some id → id < tree.nodes.length ∧ tree.nodes.length ≤ id + room) :
    tree.Grown start (tree.forestFrom room start) := by
  induction room generalizing start with
  | zero =>
    cases start with
    | none => exact .stop
    | some id => exact absurd (place id rfl).1 (Nat.not_lt.2 (place id rfl).2)
  | succ room ih =>
    cases start with
    | none => exact .stop
    | some id =>
      obtain ⟨inside, enough⟩ := place id rfl
      obtain ⟨node, found⟩ := exists_node? inside
      have closer : ∀ other, id < other → tree.nodes.length ≤ other + room := by
        intro other later
        refine enough.trans ?_
        rw [← Nat.succ_add_eq_add_succ]
        exact Nat.add_le_add_right later room
      have below : tree.Grown node.firstChild (tree.forestFrom room node.firstChild) := by
        refine ih fun child link => ?_
        have given := ordered.first (some id) child
          ((firstChild_of_node? found).trans link)
        exact ⟨lt_length_of_parent? given, closer child (ordered.above child id given)⟩
      have behind : tree.Grown node.next (tree.forestFrom room node.next) := by
        refine ih fun other link => ?_
        obtain ⟨later, parent, -, given⟩ := ordered.next id other ((next?_of_node? found).trans link)
        exact ⟨lt_length_of_parent? given, closer other later⟩
      rw [forestFrom_of_node? found]
      exact .node found below behind

theorem Ordered.grown_firstChild (ordered : tree.Ordered) (parent : Option NodeId) :
    tree.Grown (tree.firstChild parent)
      (tree.forestFrom tree.nodes.length (tree.firstChild parent)) :=
  ordered.grown_forestFrom fun id link =>
    ⟨lt_length_of_parent? (ordered.first parent id link), Nat.le_add_left _ _⟩

theorem Grown.walk {F : Forest NodeId} (grown : tree.Grown start F) (depth : Nat) :
    tree.Walk start ((tree.levelsOf depth F).map Prod.snd) := by
  induction grown generalizing depth with
  | stop => exact .stop
  | node found _ _ ihBelow ihBehind =>
    rw [levelsOf_cons found, List.map_cons, List.map_append]
    exact .node found (ihBelow (depth + 1)) (ihBehind depth)

/-- The nodes that a tree shows are those of the walk along its links. -/
theorem Ordered.walk_levels (ordered : tree.Ordered) :
    tree.Walk tree.first (tree.levels.map Prod.snd) :=
  (ordered.grown_firstChild none).walk 0

end Tree

end ConfigTemplate.Document
