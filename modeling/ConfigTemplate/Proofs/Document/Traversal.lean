import ConfigTemplate.Proofs.Document.Walk

/-!
# Walks without a bound

The walks over a tree are bounded by the number of its nodes. Here each of them is said without a bound,
by what it does at one node and from there on along the links. A walk that would go round in circles has
no result then. In a tree that edits have made, also where nodes have been removed again and again, no
walk does, because every link it takes leads to a larger number; and the bounded walks end with the same
results.

Results:
1. `Grown.along`, `Grown.visiting` and `Grown.outlining`: the walks without a bound follow the forest
   that the links make.
2. `edited_halts`: so every walk ends, from each node of a tree that edits have made.
-/

namespace ConfigTemplate.Document

namespace Tree

open Edit (Known)

variable {ε σ : Type} {tree : Tree} {start : Option NodeId} {F : Forest NodeId}
  {visitor : NodeId → Node → Attempt ε σ Bool}

/-! ## The walks -/

/-- The nodes from a given one to the end of its list. -/
inductive Along (tree : Tree) : Option NodeId → List NodeId → Prop
  | stop : Along tree none []
  | node {id : NodeId} {node : Node} {behind : List NodeId} (found : tree.node? id = some node)
      (after : Along tree node.next behind) : Along tree (some id) (id :: behind)

/-- The visit of the nodes from a given one to the end of its list: each of them is visited, then those
below it if its visit says so, then those behind it. The first error ends the visit. -/
inductive Visiting (tree : Tree) (visitor : NodeId → Node → Attempt ε σ Bool) :
    Option NodeId → σ → Except ε Unit × σ → Prop
  | stop {state : σ} : Visiting tree visitor none state (.ok (), state)
  | error {id : NodeId} {node : Node} {state after : σ} {cause : ε}
      (found : tree.node? id = some node) (visit : visitor id node state = (.error cause, after)) :
      Visiting tree visitor (some id) state (.error cause, after)
  | innerError {id : NodeId} {node : Node} {state middle after : σ} {opens : Bool} {cause : ε}
      (found : tree.node? id = some node) (visit : visitor id node state = (.ok opens, middle))
      (below : Visiting tree visitor (if opens then node.firstChild else none) middle
        (.error cause, after)) : Visiting tree visitor (some id) state (.error cause, after)
  | node {id : NodeId} {node : Node} {state middle between : σ} {opens : Bool}
      {result : Except ε Unit × σ} (found : tree.node? id = some node)
      (visit : visitor id node state = (.ok opens, middle))
      (below : Visiting tree visitor (if opens then node.firstChild else none) middle
        (.ok (), between)) (behind : Visiting tree visitor node.next between result) :
      Visiting tree visitor (some id) state result

/-- The line that an outline has for a node at a depth. -/
def outlineLine (depth : Nat) (node : Node) : String :=
  String.ofList (List.replicate (2 * depth) ' ') ++ node.content.summary ++ "\n"

/-- The outline of the nodes from a given one to the end of its list, which stand at a depth. -/
inductive Outlining (tree : Tree) : Nat → Option NodeId → String → Prop
  | stop {depth : Nat} : Outlining tree depth none ""
  | node {depth : Nat} {id : NodeId} {node : Node} {inner rest : String}
      (found : tree.node? id = some node) (below : Outlining tree (depth + 1) node.firstChild inner)
      (behind : Outlining tree depth node.next rest) :
      Outlining tree depth (some id) (outlineLine depth node ++ inner ++ rest)

/-! ## No walk has two results -/

theorem Along.unique {ids others : List NodeId} (along : tree.Along start ids)
    (also : tree.Along start others) : ids = others := by
  induction along generalizing others with
  | stop =>
    cases also
    rfl
  | node found _ ih =>
    cases also with
    | node alsoFound after =>
      cases found.symm.trans alsoFound
      rw [ih after]

theorem Visiting.of_visit_error {id : NodeId} {node : Node} {state after : σ} {cause : ε}
    {result : Except ε Unit × σ} (visiting : tree.Visiting visitor (some id) state result)
    (found : tree.node? id = some node) (visit : visitor id node state = (.error cause, after)) :
    result = (.error cause, after) := by
  cases visiting with
  | error alsoFound alsoVisit =>
    cases found.symm.trans alsoFound
    cases visit.symm.trans alsoVisit
    rfl
  | innerError alsoFound alsoVisit | node alsoFound alsoVisit =>
    cases found.symm.trans alsoFound
    cases visit.symm.trans alsoVisit

/-- Once a node has been visited, the nodes below it are: an error there ends the visit, and otherwise
the nodes behind it are visited. -/
theorem Visiting.of_visit_ok {id : NodeId} {node : Node} {state middle : σ} {opens : Bool}
    {result : Except ε Unit × σ} (visiting : tree.Visiting visitor (some id) state result)
    (found : tree.node? id = some node) (visit : visitor id node state = (.ok opens, middle)) :
    ∃ inside, tree.Visiting visitor (if opens then node.firstChild else none) middle inside ∧
      ((∃ cause after, inside = (.error cause, after) ∧ result = (.error cause, after)) ∨
        ∃ between, inside = (.ok (), between) ∧ tree.Visiting visitor node.next between result) := by
  cases visiting with
  | error alsoFound alsoVisit =>
    cases found.symm.trans alsoFound
    cases visit.symm.trans alsoVisit
  | innerError alsoFound alsoVisit below =>
    cases found.symm.trans alsoFound
    cases visit.symm.trans alsoVisit
    exact ⟨_, below, .inl ⟨_, _, rfl, rfl⟩⟩
  | node alsoFound alsoVisit below behind =>
    cases found.symm.trans alsoFound
    cases visit.symm.trans alsoVisit
    exact ⟨_, below, .inr ⟨_, rfl, behind⟩⟩

theorem Visiting.unique {state : σ} {result other : Except ε Unit × σ}
    (visiting : tree.Visiting visitor start state result)
    (also : tree.Visiting visitor start state other) : result = other := by
  induction visiting generalizing other with
  | stop =>
    cases also
    rfl
  | error found visit => exact (also.of_visit_error found visit).symm
  | innerError found visit _ ih =>
    obtain ⟨inside, below, ⟨_, _, rfl, rfl⟩ | ⟨_, rfl, _⟩⟩ := also.of_visit_ok found visit
    · exact ih below
    · cases ih below
  | node found visit _ _ ihBelow ihBehind =>
    obtain ⟨inside, below, ⟨_, _, rfl, _⟩ | ⟨_, rfl, behind⟩⟩ := also.of_visit_ok found visit
    · cases ihBelow below
    · cases ihBelow below
      exact ihBehind behind

theorem Outlining.unique {depth : Nat} {text other : String}
    (outlining : tree.Outlining depth start text) (also : tree.Outlining depth start other) :
    text = other := by
  induction outlining generalizing other with
  | stop =>
    cases also
    rfl
  | node found _ _ ihBelow ihBehind =>
    cases also with
    | node alsoFound below behind =>
      cases found.symm.trans alsoFound
      rw [ihBelow below, ihBehind behind]

/-! ## The walks follow the forest -/

theorem siblingsFrom_eq_roots (tree : Tree) (room : Nat) (start : Option NodeId) :
    tree.siblingsFrom room start = (tree.forestFrom room start).roots := by
  induction room generalizing start with
  | zero => rfl
  | succ room ih =>
    cases start with
    | none => rfl
    | some id => rw [siblingsFrom, ih, forestFrom, Forest.roots]

theorem Grown.along (grown : tree.Grown start F) : tree.Along start F.roots := by
  induction grown with
  | stop => exact .stop
  | node found _ _ _ ih => exact .node found ih

theorem Grown.visiting (grown : tree.Grown start F) (state : σ) :
    tree.Visiting visitor start state
      (F.visit (fun id => (tree.node? id).elim (pure false) (visitor id)) state) := by
  induction grown generalizing state with
  | stop => exact .stop
  | @node id node below behind found _ _ ihBelow ihBehind =>
    rw [Forest.visit_cons, found, Option.elim_some, Attempt.run_bind]
    rcases visit : visitor id node state with ⟨cause | opens, middle⟩
    · exact .error found visit
    dsimp only
    rw [Attempt.run_bind]
    have inside : tree.Visiting visitor (if opens then node.firstChild else none) middle
        ((if opens then below else .nil).visit
          (fun id => (tree.node? id).elim (pure false) (visitor id)) middle) := by
      cases opens with
      | false => exact .stop
      | true => exact ihBelow middle
    rcases ran : (if opens then below else .nil).visit
      (fun id => (tree.node? id).elim (pure false) (visitor id)) middle with ⟨cause | done, between⟩
    · exact .innerError found visit (ran ▸ inside)
    · exact .node found visit (ran ▸ inside) (ihBehind between)

theorem Grown.outlining (grown : tree.Grown start F) (depth : Nat) :
    tree.Outlining depth start
      (String.join ((tree.levelsOf depth F).map fun (depth, shown) => outlineLine depth shown)) := by
  induction grown generalizing depth with
  | stop => exact .stop
  | node found _ _ ihBelow ihBehind =>
    rw [levelsOf_cons found, List.map_cons, List.map_append, String.join_cons, String.join_append,
      ← String.append_assoc]
    exact .node found (ihBelow (depth + 1)) (ihBehind depth)

/-! ## Every walk ends -/

/-- From each node, and from the top, the walks over the tree come to an end, and those of the top end
as the bounded ones do. -/
structure Halts (tree : Tree) : Prop where
  next : ∀ id other, tree.next? id = some other → id < other
  firstChild : ∀ parent child, tree.firstChild (some parent) = some child → parent < child
  children : ∀ parent ids, tree.Along (tree.firstChild parent) ids ↔ ids = tree.children parent
  visitBelow : ∀ (ε σ : Type) (visitor : NodeId → Node → Attempt ε σ Bool) parent state,
    ∃! result, tree.Visiting visitor (tree.firstChild parent) state result
  visit : ∀ (ε σ : Type) (visitor : NodeId → Node → Attempt ε σ Bool) state result,
    tree.Visiting visitor tree.first state result ↔ result = tree.visit visitor state
  outlineBelow : ∀ depth parent, ∃! text, tree.Outlining depth (tree.firstChild parent) text
  outline : ∀ text, tree.Outlining 0 tree.first text ↔ text = tree.outline

theorem Ordered.halts (ordered : tree.Ordered) : tree.Halts where
  next id other link := (ordered.next id other link).1
  firstChild parent child link := ordered.above child parent (ordered.first (some parent) child link)
  children parent ids := by
    have along : tree.Along (tree.firstChild parent) (tree.children parent) := by
      rw [children, siblingsFrom_eq_roots]
      exact (ordered.grown_firstChild parent).along
    exact ⟨fun also => also.unique along, fun same => same ▸ along⟩
  visitBelow ε σ visitor parent state :=
    ⟨_, (ordered.grown_firstChild parent).visiting state, fun _ also =>
      also.unique ((ordered.grown_firstChild parent).visiting state)⟩
  visit ε σ visitor state result := by
    have visiting : tree.Visiting visitor tree.first state (tree.visit visitor state) := by
      rw [visit_eq]
      exact (ordered.grown_firstChild none).visiting state
    exact ⟨fun also => also.unique visiting, fun same => same ▸ visiting⟩
  outlineBelow depth parent :=
    ⟨_, (ordered.grown_firstChild parent).outlining depth, fun _ also =>
      also.unique ((ordered.grown_firstChild parent).outlining depth)⟩
  outline text := by
    have outlining : tree.Outlining 0 tree.first tree.outline :=
      (ordered.grown_firstChild none).outlining 0
    exact ⟨fun also => also.unique outlining, fun same => same ▸ outlining⟩

/-- In a tree that edits have made, every link leads to a larger number, also where nodes have been
removed more than once; so no walk goes round in circles. -/
theorem edited_halts {edits : List Edit} (known : Known 0 edits) : (edited edits).Halts :=
  (ordered_edited known).halts

/-- Blocks with texts, of which the second one is removed twice. Then another block is appended, and
removing the first one leads back to the third as the first of the list. -/
def exRelinked : List Edit :=
  [.append none (.block "a") 1, .append (some 0) (.text "x") 1, .append none (.block "b") 2,
    .append none (.block "c") 3, .append (some 3) (.text "z") 3, .remove 2, .remove 2,
    .append none (.block "d") 4, .remove 0]

/-- The last block of the list is not linked to the first one, but the walks end. -/
theorem exRelinked_halts :
    Known 0 exRelinked ∧ (edited exRelinked).last = some 5 ∧
      (edited exRelinked).Along (edited exRelinked).first [3] ∧
      (edited exRelinked).Outlining 0 (edited exRelinked).first "block c\n  text \"z\"\n" := by
  have known : Known 0 exRelinked := by simp [Known, exRelinked]
  have halts := edited_halts known
  exact ⟨known, by decide, (halts.children none [3]).2 (by decide),
    (halts.outline _).2 (by decide +kernel)⟩

end Tree

end ConfigTemplate.Document
