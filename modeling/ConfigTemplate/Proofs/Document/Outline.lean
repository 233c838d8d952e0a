import ConfigTemplate.Proofs.Document.Parsed

/-!
# Trees in the order of their assembly

While a tree is assembled, every new node comes last in pre-order: it is put behind all nodes of the
innermost open block, and the open blocks are the last nodes of their lists. So what has been written
is never moved, and an assembly adds to the outline of its tree line by line.

Results:
1. `Forest.levels_injective`: the depths in pre-order determine a forest.
2. `Tree.Grows.append`: a node below the end of a path of last nodes comes last in the forest.
3. `Assembly.Ordered.extends`: what a new node adds to the outline of a tree.
-/

namespace ConfigTemplate

/-! ## Forests one after the other -/

namespace Forest

variable {α : Type}

/-- The trees of two forests, one after the other. -/
def append : Forest α → Forest α → Forest α
  | .nil, right => right
  | .cons label children rest, right => .cons label children (rest.append right)

theorem levels_append (left right : Forest α) (depth : Nat) :
    (left.append right).levels depth = left.levels depth ++ right.levels depth := by
  induction left generalizing depth with
  | nil => rfl
  | cons label children rest _ ih => simp [append, levels, ih]

theorem toList_append (left right : Forest α) :
    (left.append right).toList = left.toList ++ right.toList := by
  induction left with
  | nil => rfl
  | cons label children rest _ ih => simp [append, toList, ih]

/-- A forest is read off its levels, up to the first label that stands above it. -/
theorem eq_of_levels_append {left right : Forest α} {depth : Nat} {front back : List (Nat × α)}
    (frontAbove : ∀ item ∈ front.head?, item.1 < depth)
    (backAbove : ∀ item ∈ back.head?, item.1 < depth)
    (same : left.levels depth ++ front = right.levels depth ++ back) :
    left = right ∧ front = back := by
  induction left generalizing right depth front back with
  | nil =>
    cases right with
    | nil => exact ⟨rfl, same⟩
    | cons label children rest =>
      obtain rfl : front = _ := same
      exact absurd (frontAbove (depth, label) rfl) (Nat.lt_irrefl _)
  | cons label children rest ihChildren ihRest =>
    cases right with
    | nil =>
      obtain rfl : back = _ := same.symm
      exact absurd (backAbove (depth, label) rfl) (Nat.lt_irrefl _)
    | cons other below behind =>
      simp only [levels, List.cons_append, List.append_assoc, List.cons.injEq, Prod.mk.injEq,
        true_and] at same
      obtain ⟨rfl, same⟩ := same
      -- What follows the children is a label of this depth, or what follows the forest.
      have above : ∀ {others : Forest α} {rear : List (Nat × α)},
          (∀ item ∈ rear.head?, item.1 < depth) →
          ∀ item ∈ (others.levels depth ++ rear).head?, item.1 < depth + 1 := by
        intro others rear rearAbove item first
        cases others with
        | nil => exact Nat.lt_succ_of_lt (rearAbove item first)
        | cons label children rest =>
          cases first
          exact Nat.lt_succ_self _
      obtain ⟨rfl, behinds⟩ := ihChildren (above frontAbove) (above backAbove) same
      obtain ⟨rfl, rfl⟩ := ihRest frontAbove backAbove behinds
      exact ⟨rfl, rfl⟩

/-- The depths in pre-order determine a forest. -/
theorem levels_injective (depth : Nat) : (levels (α := α) depth).Injective := by
  intro left right same
  have whole : left.levels depth ++ [] = right.levels depth ++ [] := by rw [same]
  exact (eq_of_levels_append (by simp) (by simp) whole).1

end Forest

namespace Document

/-! ## Forests of lists -/

namespace Tree

variable {lists : Option NodeId → List NodeId} {ids : List NodeId} {F G : Forest NodeId}

/-- The forest of the given outermost nodes with the listed nodes below them. -/
inductive Grows (lists : Option NodeId → List NodeId) : List NodeId → Forest NodeId → Prop where
  | nil : Grows lists [] .nil
  | cons {id : NodeId} {rest : List NodeId} {children behind : Forest NodeId}
      (below : Grows lists (lists (some id)) children) (further : Grows lists rest behind) :
      Grows lists (id :: rest) (.cons id children behind)

namespace Grows

theorem unique (grows : Grows lists ids F) (also : Grows lists ids G) : F = G := by
  induction grows generalizing G with
  | nil =>
    cases also
    rfl
  | cons _ _ ihBelow ihFurther =>
    cases also with
    | cons below further => rw [ihBelow below, ihFurther further]

theorem concat {more : List NodeId} (left : Grows lists ids F) (right : Grows lists more G) :
    Grows lists (ids ++ more) (F.append G) := by
  induction left with
  | nil => exact right
  | cons below _ _ ih => exact .cons below ih

theorem split {more : List NodeId} (grows : Grows lists (ids ++ more) F) :
    ∃ front back, Grows lists ids front ∧ Grows lists more back ∧ F = front.append back := by
  induction ids generalizing F with
  | nil => exact ⟨.nil, F, .nil, grows, rfl⟩
  | cons id rest ih =>
    cases grows with
    | cons below further =>
      obtain ⟨front, back, left, right, rfl⟩ := ih further
      exact ⟨_, back, .cons below left, right, rfl⟩

/-- Only the lists of the nodes of the forest matter. -/
theorem congr {others : Option NodeId → List NodeId} (grows : Grows lists ids F)
    (same : ∀ id ∈ F.toList, others (some id) = lists (some id)) : Grows others ids F := by
  induction grows with
  | nil => exact .nil
  | cons _ _ ihBelow ihFurther =>
    refine .cons ?_ (ihFurther fun id behind => same id (by simp [Forest.toList, behind]))
    rw [same _ List.mem_cons_self]
    exact ihBelow fun id inside => same id (by simp [Forest.toList, inside])

end Grows

/-- The numbers grow on the way down, so there is room for every path. -/
theorem Listed.grows_grow {tree : Tree} (listed : tree.Listed lists) {room bound : Nat}
    {ids : List NodeId} (known : ∀ id ∈ ids, id < tree.nodes.length)
    (beyond : ∀ id ∈ ids, bound ≤ id) (enough : tree.nodes.length ≤ room + bound) :
    Grows lists ids (grow lists room ids) := by
  induction room generalizing ids bound with
  | zero =>
    cases ids with
    | nil => exact .nil
    | cons id rest =>
      have inside := Nat.lt_of_lt_of_le (known id List.mem_cons_self) enough
      have atLeast := beyond id List.mem_cons_self
      omega
  | succ room ih =>
    induction ids with
    | nil =>
      rw [grow_nil]
      exact .nil
    | cons id rest ihRest =>
      rw [grow_cons]
      have atLeast := beyond id List.mem_cons_self
      have deeper : tree.nodes.length ≤ room + (id + 1) := by
        rw [Nat.add_comm id, ← Nat.add_assoc]
        exact Nat.le_trans enough (Nat.add_le_add_left atLeast _)
      refine .cons (ih (fun _ inside => listed.lt_length inside) (listed.above id) deeper) ?_
      exact ihRest (fun other behind => known other (List.mem_cons_of_mem _ behind))
        fun other behind => beyond other (List.mem_cons_of_mem _ behind)

theorem Listed.grows {tree : Tree} (listed : tree.Listed lists) :
    Grows lists (lists none) tree.forest := by
  rw [listed.forest_eq]
  exact listed.grows_grow (fun _ => listed.lt_length) (fun _ _ => Nat.zero_le _) (Nat.le_refl _)

/-! ## Paths of last nodes -/

/-- Each node of the path is the last one in the list of the node before it. -/
def LastPath (lists : Option NodeId → List NodeId) : Option NodeId → List NodeId → Prop
  | _, [] => True
  | top, id :: path => (lists top).getLast? = some id ∧ LastPath lists (some id) path

/-- Where a path ends. -/
def pathEnd : Option NodeId → List NodeId → Option NodeId
  | top, [] => top
  | _, id :: path => pathEnd (some id) path

theorem pathEnd_concat (top : Option NodeId) (path : List NodeId) (id : NodeId) :
    pathEnd top (path ++ [id]) = some id := by
  induction path generalizing top with
  | nil => rfl
  | cons first path ih => exact ih (some first)

theorem pathEnd_reverse (path : List NodeId) : pathEnd none path.reverse = path.head? := by
  cases path with
  | nil => rfl
  | cons id path => rw [List.reverse_cons, pathEnd_concat, List.head?_cons]

theorem LastPath.of_append {top : Option NodeId} {path more : List NodeId}
    (last : LastPath lists top (path ++ more)) : LastPath lists top path := by
  induction path generalizing top with
  | nil => trivial
  | cons id path ih => exact ⟨last.1, ih last.2⟩

/-- The forest of a list ends with its last node and what is below that one. -/
theorem Grows.of_getLast? {top : Option NodeId} {id : NodeId} (grows : Grows lists (lists top) F)
    (last : (lists top).getLast? = some id) :
    ∃ before front children, lists top = before ++ [id] ∧ Grows lists before front ∧
      Grows lists (lists (some id)) children ∧ F = front.append (.cons id children .nil) := by
  obtain ⟨before, split⟩ := List.getLast?_eq_some_iff.1 last
  rw [split] at grows
  obtain ⟨front, back, left, right, rfl⟩ := grows.split
  cases right with
  | cons below further =>
    cases further
    exact ⟨before, front, _, split, left, below, rfl⟩

/-- A path ends at its start or at a node below it. -/
theorem LastPath.pathEnd_eq {top : Option NodeId} {path : List NodeId}
    (last : LastPath lists top path) (grows : Grows lists (lists top) F) :
    pathEnd top path = top ∨ ∃ id ∈ F.toList, pathEnd top path = some id := by
  induction path generalizing top F with
  | nil => exact .inl rfl
  | cons first path ih =>
    obtain ⟨before, front, children, -, -, below, rfl⟩ := grows.of_getLast? last.1
    refine .inr ?_
    rcases ih last.2 below with same | ⟨id, inside, same⟩
    · exact ⟨first, by simp [Forest.toList_append, Forest.toList], same⟩
    · exact ⟨id, by simp [Forest.toList_append, Forest.toList, inside], same⟩

/-- A new node at the end of a path comes last in the forest, one deeper than the path is long. It
can be the end of a path itself. -/
theorem Grows.append {top : Option NodeId} {path : List NodeId} {new : NodeId} (depth : Nat)
    (grows : Grows lists (lists top) F) (last : LastPath lists top path)
    (distinct : (top.toList ++ F.toList).Nodup) (fresh : some new ≠ top) (unused : new ∉ F.toList)
    (childless : lists (some new) = []) :
    let parent := pathEnd top path
    let later := Function.update lists parent (lists parent ++ [new])
    ∃ G, Grows later (later top) G ∧
      G.levels depth = F.levels depth ++ [(depth + path.length, new)] ∧
      LastPath later top (path ++ [new]) := by
  intro parent later
  induction path generalizing top F depth with
  | nil =>
    have kept : Grows later (lists top) F := grows.congr fun id inside => by
      refine Function.update_of_ne ?_ _ _
      rintro (rfl : some id = top)
      exact (List.nodup_cons.1 distinct).1 inside
    have single : Grows later [new] (.cons new .nil .nil) := by
      refine .cons ?_ .nil
      rw [show later (some new) = [] from (Function.update_of_ne fresh _ _).trans childless]
      exact .nil
    have longer : later top = lists top ++ [new] := Function.update_self ..
    refine ⟨F.append (.cons new .nil .nil), ?_, ?_, ?_, trivial⟩
    · rw [longer]
      exact kept.concat single
    · simp [Forest.levels_append, Forest.levels]
    · simp [longer]
  | cons id path ih =>
    obtain ⟨before, front, children, split, left, below, rfl⟩ := grows.of_getLast? last.1
    simp only [Forest.toList_append, Forest.toList, List.append_nil] at distinct unused
    obtain ⟨-, apart, outside⟩ := List.nodup_append.1 distinct
    obtain ⟨-, inner, separate⟩ := List.nodup_append.1 apart
    -- The end of the path is `id` or below it, so it is neither the top nor in front of `id`.
    obtain ⟨point, within, same⟩ : ∃ point ∈ id :: children.toList, parent = some point := by
      rcases last.2.pathEnd_eq below with same | ⟨point, inside, same⟩
      · exact ⟨id, List.mem_cons_self, same⟩
      · exact ⟨point, List.mem_cons_of_mem _ inside, same⟩
    have notTop : top ≠ parent := fun is =>
      outside point (by simp [is, same]) point (List.mem_append_right _ within) rfl
    have kept : later top = before ++ [id] := (Function.update_of_ne notTop _ _).trans split
    have leading : Grows later before front := left.congr fun other inside =>
      Function.update_of_ne (fun is => separate other inside point within
        (Option.some.inj (is.trans same))) _ _
    obtain ⟨grown, growth, levels, further⟩ := ih (depth + 1) below last.2 inner
      (fun is => unused (by simp [Option.some.inj is])) fun inside => unused (by simp [inside])
    refine ⟨front.append (.cons id grown .nil), ?_, ?_, ?_, further⟩
    · rw [kept]
      exact leading.concat (.cons growth .nil)
    · simp only [Forest.levels_append, Forest.levels, levels, List.append_nil, List.length_cons,
        List.append_assoc, List.cons_append]
      rw [Nat.add_assoc, Nat.add_comm 1]
    · simp [kept]

/-! ## Outlines -/

variable {tree : Tree}

/-- The contents of the nodes that can be reached in pre-order, each with its depth. -/
def contentLevels (tree : Tree) : List (Nat × Content) :=
  tree.levels.map fun (depth, node) => (depth, node.content)

theorem contentLevels_eq (tree : Tree) :
    tree.contentLevels =
      (tree.forest.levels 0).filterMap fun (depth, id) => (tree.content? id).map (depth, ·) := by
  rw [contentLevels, levels, List.map_filterMap]
  refine List.filterMap_congr fun line _ => ?_
  simp [content?, Function.comp_def]

theorem Shows.contentLevels {F : Forest Content} (shows_ : tree.Shows F) :
    tree.contentLevels = F.levels 0 := by
  rw [contentLevels_eq]
  suffices all : ∀ (G : Forest NodeId) (F : Forest Content) depth,
      G.map tree.content? = F.map some →
      ((G.levels depth).filterMap fun (depth, id) => (tree.content? id).map (depth, ·)) =
        F.levels depth from all _ _ 0 shows_
  intro G
  induction G with
  | nil =>
    intro F depth same
    cases F with
    | nil => rfl
    | cons => cases same
  | cons id children rest ihChildren ihRest =>
    intro F depth same
    cases F with
    | nil => cases same
    | cons content below behind =>
      injection same with content? belows behinds
      simp [Forest.levels, content?, ihChildren _ _ belows, ihRest _ _ behinds]

end Tree

/-! ## Assemblies -/

namespace Assembly

variable {assembly : Assembly}

/-- The nodes of the tree are in pre-order, and the open blocks are at its end. -/
def Ordered (assembly : Assembly) : Prop :=
  ∃ lists, assembly.tree.Listed lists ∧
    assembly.tree.forest.toList = List.range assembly.tree.nodes.length ∧
    Tree.LastPath lists none (assembly.blocks.map Prod.fst).reverse

theorem ordered_empty : empty.Ordered := ⟨fun _ => [], Tree.listed_empty, rfl, trivial⟩

/-- Whether an assembly is ordered does not depend on its open declarations or its pending file. -/
theorem Ordered.of_eq (ordered : assembly.Ordered) {later : Assembly}
    (tree : later.tree = assembly.tree) (blocks : later.blocks = assembly.blocks) :
    later.Ordered := by
  unfold Ordered
  rwa [tree, blocks]

/-- A new node comes last. -/
theorem Ordered.extends (ordered : assembly.Ordered) (content : Content) (line : Nat) (name : String) :
    let tree := (assembly.tree.append assembly.insertionPoint content line).2
    tree.contentLevels = assembly.tree.contentLevels ++ [(assembly.blocks.length, content)] ∧
      Ordered { assembly with tree, blocks := (assembly.tree.nodes.length, name) :: assembly.blocks } ∧
      Ordered { assembly with tree } := by
  intro tree
  obtain ⟨lists, listed, inOrder, last⟩ := ordered
  have point : Tree.pathEnd none (assembly.blocks.map Prod.fst).reverse =
      assembly.insertionPoint := by
    rw [Tree.pathEnd_reverse, insertionPoint, List.head?_map]
  have member : ∀ id, id ∈ assembly.tree.forest.toList ↔ id < assembly.tree.nodes.length := by
    simp [inOrder]
  have childless : lists (some assembly.tree.nodes.length) = [] := by
    refine List.eq_nil_iff_forall_not_mem.2 fun id inside => ?_
    exact Nat.lt_asymm (listed.above _ id inside) (listed.lt_length inside)
  obtain ⟨G, growth, levels, further⟩ := Tree.Grows.append 0 listed.grows last
    (by simp [inOrder, List.nodup_range]) nofun (by simp [inOrder]) childless
  rw [point] at growth further
  have known : ∀ p, assembly.insertionPoint = some p → p < assembly.tree.nodes.length := by
    intro p is
    rcases last.pathEnd_eq listed.grows with same | ⟨id, inside, same⟩
    · cases same.symm.trans (point.trans is)
    · cases same.symm.trans (point.trans is)
      exact (member _).1 inside
  have later := listed.append known content line
  obtain rfl : tree.forest = G := later.grows.unique growth
  have counted : tree.nodes.length = assembly.tree.nodes.length + 1 := Tree.length_append ..
  have ordered : tree.forest.toList = List.range tree.nodes.length := by
    rw [← Forest.map_snd_levels _ 0, levels, List.map_append, Forest.map_snd_levels, inOrder, counted,
      List.range_succ]
    rfl
  refine ⟨?_, ⟨_, later, ordered, ?_⟩, ⟨_, later, ordered, further.of_append⟩⟩
  · rw [Tree.contentLevels_eq, Tree.contentLevels_eq, levels, List.filterMap_append]
    congr 1
    · refine List.filterMap_congr fun line inside => ?_
      obtain ⟨depth, id⟩ := line
      have reached : id ∈ assembly.tree.forest.toList := by
        rw [← Forest.map_snd_levels _ 0]
        exact List.mem_map_of_mem inside
      have old : id ≠ assembly.tree.nodes.length := Nat.ne_of_lt ((member id).1 reached)
      simp [tree, Tree.content?_append, old]
    · simp [tree, Tree.content?_append]
  · simpa using further

end Assembly

end Document

end ConfigTemplate
