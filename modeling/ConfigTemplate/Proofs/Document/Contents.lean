import ConfigTemplate.Proofs.Document.Links

/-!
# The contents of a tree

What a template says is the forest of the contents of its nodes. The links and numbers of the nodes
only serve to keep it. This module reads a forest of contents off a tree, and says which texts and
declarations the forest holds.

Results:
1. `Tree.visit_eq_forM`: a visit that goes on everywhere comes by all nodes that can be reached.
2. `Tree.Shows.unique` and `Tree.Listed.exists_shows`: a tree shows one forest.
3. `Tree.Shows.levels`: the nodes that can be reached have the contents of this forest.
-/

namespace ConfigTemplate

open Document (Content Declaration NodeId Node Tree)

/-! ## Forests of contents -/

namespace Forest

variable {α β : Type}

theorem map_map {γ : Type} (f : α → β) (g : β → γ) (forest : Forest α) :
    (forest.map f).map g = forest.map (g ∘ f) := by
  induction forest with
  | nil => rfl
  | cons label children rest ihChildren ihRest => simp [map, ihChildren, ihRest]

theorem map_injective {f : α → β} (injective : f.Injective) : (map f).Injective := by
  intro left right same
  induction left generalizing right with
  | nil =>
    cases right with
    | nil => rfl
    | cons label children rest => cases same
  | cons label children rest ihChildren ihRest =>
    cases right with
    | nil => cases same
    | cons other below behind =>
      injection same with labels belows behinds
      rw [injective labels, ihChildren belows, ihRest behinds]

theorem toList_map (f : α → β) (forest : Forest α) :
    (forest.map f).toList = forest.toList.map f := by
  induction forest with
  | nil => rfl
  | cons label children rest ihChildren ihRest => simp [map, toList, ihChildren, ihRest]

theorem map_congr {f g : α → β} {forest : Forest α}
    (same : ∀ label ∈ forest.toList, f label = g label) : forest.map f = forest.map g := by
  induction forest with
  | nil => rfl
  | cons label children rest ihChildren ihRest =>
    rw [map, map, same label List.mem_cons_self,
      ihChildren fun inner member => same inner (by simp [toList, member]),
      ihRest fun later member => same later (by simp [toList, member])]

theorem map_snd_levels (forest : Forest α) (depth : Nat) :
    (forest.levels depth).map Prod.snd = forest.toList := by
  induction forest generalizing depth with
  | nil => rfl
  | cons label children rest ihChildren ihRest => simp [levels, toList, ihChildren, ihRest]

/-- The declarations of a forest in pre-order. -/
def declarations (forest : Forest Content) : List Declaration :=
  forest.toList.filterMap fun
    | .declaration declared => some declared
    | .text _ | .block _ => none

theorem mem_declarations {forest : Forest Content} {declared : Declaration} :
    declared ∈ forest.declarations ↔ .declaration declared ∈ forest.toList := by
  rw [declarations, List.mem_filterMap]
  constructor
  · rintro ⟨content, member, same⟩
    split at same <;> cases same
    exact member
  · exact fun member => ⟨_, member, rfl⟩

/-- The names of the blocks of a forest. -/
def blocks (forest : Forest Content) : List String :=
  forest.toList.filterMap fun
    | .block condition => some condition
    | .text _ | .declaration _ => none

theorem mem_blocks {forest : Forest Content} {condition : String} :
    condition ∈ forest.blocks ↔ .block condition ∈ forest.toList := by
  rw [blocks, List.mem_filterMap]
  constructor
  · rintro ⟨content, member, same⟩
    split at same <;> cases same
    exact member
  · exact fun member => ⟨_, member, rfl⟩

/-- The texts of a forest in pre-order, each with the names of the blocks around it. -/
def texts (around : List String) : Forest Content → List (List String × String)
  | .nil => []
  | .cons (.text characters) children rest =>
    (around, characters) :: (children.texts around ++ rest.texts around)
  | .cons (.block condition) children rest =>
    children.texts (condition :: around) ++ rest.texts around
  | .cons (.declaration _) children rest => children.texts around ++ rest.texts around

/-- The texts of a forest that are part of the output if the given conditions hold. -/
def shown (holds : String → Bool) : Forest (Option Content) → List String
  | .nil => []
  | .cons (some (.text characters)) children rest =>
    characters :: (children.shown holds ++ rest.shown holds)
  | .cons (some (.block condition)) children rest =>
    (if holds condition then children.shown holds else []) ++ rest.shown holds
  | .cons (some (.declaration _)) _ rest => rest.shown holds
  | .cons none _ rest => rest.shown holds

/-- Whether a blank text stands between two declarations. -/
def isConnector (prev : Option Content) (content : Content) (next : Option Content) : Bool :=
  content.isBlankText && prev.any Content.isDeclaration && next.any Content.isDeclaration

/-- The forest without the blank texts between two declarations among its roots. The first argument
is the root before the forest. -/
def withoutConnectors (prev : Option Content) : Forest Content → Forest Content
  | .nil => .nil
  | .cons content children rest =>
    let behind := rest.withoutConnectors (some content)
    if isConnector prev content rest.roots.head? then behind else .cons content children behind

/-- The forest without the declarations among its roots. -/
def withoutDeclarations : Forest Content → Forest Content
  | .nil => .nil
  | .cons content children rest =>
    if content.isDeclaration then rest.withoutDeclarations
    else .cons content children rest.withoutDeclarations

/-- Only blocks have something below them. -/
def BlocksOnly : Forest Content → Prop
  | .nil => True
  | .cons (.block _) children rest => children.BlocksOnly ∧ rest.BlocksOnly
  | .cons (.text _) children rest => children = .nil ∧ rest.BlocksOnly
  | .cons (.declaration _) children rest => children = .nil ∧ rest.BlocksOnly

theorem BlocksOnly.rest {content : Content} {children rest : Forest Content}
    (tidy : (cons content children rest).BlocksOnly) : rest.BlocksOnly := by
  cases content <;> exact tidy.2

theorem BlocksOnly.withoutConnectors {F : Forest Content} (tidy : F.BlocksOnly)
    (prev : Option Content) : (F.withoutConnectors prev).BlocksOnly := by
  induction F generalizing prev with
  | nil => trivial
  | cons content children rest _ ih =>
    have behind := ih tidy.rest (some content)
    rw [Forest.withoutConnectors]
    split
    · exact behind
    · cases content <;> exact ⟨tidy.1, behind⟩

theorem mem_blocks_cons {content : Content} {children rest : Forest Content} {name : String} :
    name ∈ (cons content children rest).blocks ↔
      content = .block name ∨ name ∈ children.blocks ∨ name ∈ rest.blocks := by
  simp only [mem_blocks, toList, List.mem_cons, List.mem_append, eq_comm]

/-- The blocks around a text are those around the forest and some of the forest. -/
theorem of_mem_texts {F : Forest Content} {around : List String} {text : List String × String}
    (member : text ∈ F.texts around) :
    (∀ name ∈ around, name ∈ text.1) ∧ ∀ name ∈ text.1, name ∈ around ∨ name ∈ F.blocks := by
  induction F generalizing around with
  | nil => cases member
  | cons content children rest ihChildren ihRest =>
    simp only [mem_blocks_cons]
    cases content with
    | text characters =>
      rcases List.mem_cons.1 member with rfl | member
      · exact ⟨fun _ inside => inside, fun _ inside => .inl inside⟩
      rcases List.mem_append.1 member with below | behind
      · have inner := ihChildren below
        grind
      · have later := ihRest behind
        grind
    | block condition =>
      rcases List.mem_append.1 member with below | behind
      · have inner := ihChildren below
        grind
      · have later := ihRest behind
        grind
    | declaration declared =>
      rcases List.mem_append.1 member with below | behind
      · have inner := ihChildren below
        grind
      · have later := ihRest behind
        grind

/-- The texts that are shown are those for which all blocks around them hold. -/
theorem shown_map_some {F : Forest Content} (tidy : F.BlocksOnly) (holds : String → Bool)
    {around : List String} (inside : around.all holds) :
    (F.map some).shown holds = ((F.texts around).filter (·.1.all holds)).map Prod.snd := by
  induction F generalizing around with
  | nil => rfl
  | cons content children rest ihChildren ihRest =>
    have later := ihRest tidy.rest inside
    cases content with
    | text characters =>
      obtain ⟨rfl, -⟩ := tidy
      simp only [map, shown, texts, List.nil_append, List.filter_cons, inside, if_true,
        List.map_cons, later]
    | block condition =>
      rw [map, shown, texts, List.filter_append, List.map_append, later]
      cases holding : holds condition with
      | true =>
        have within : (condition :: around).all holds := by simp [holding, inside]
        rw [ihChildren tidy.1 within]
        rfl
      | false =>
        have hidden : (children.texts (condition :: around)).filter (·.1.all holds) = [] :=
          List.filter_eq_nil_iff.2 fun text member all => by
            have named := (of_mem_texts member).1 condition List.mem_cons_self
            have := List.all_eq_true.1 all condition named
            exact absurd (this.symm.trans holding) nofun
        rw [hidden]
        rfl
    | declaration declared =>
      obtain ⟨rfl, -⟩ := tidy
      simp only [map, shown, texts, List.nil_append, later]

theorem shown_withoutDeclarations (F : Forest Content) (holds : String → Bool) :
    (F.withoutDeclarations.map some).shown holds = (F.map some).shown holds := by
  induction F with
  | nil => rfl
  | cons content children rest _ ih =>
    rw [withoutDeclarations]
    cases content with
    | text characters => simp [Content.isDeclaration, map, shown, ih]
    | block condition => simp [Content.isDeclaration, map, shown, ih]
    | declaration declared => simp [Content.isDeclaration, map, shown, ih]

/-- Declarations have no blocks below them, so none is lost with them. -/
theorem mem_blocks_withoutDeclarations {F : Forest Content} (tidy : F.BlocksOnly) {name : String}
    (member : name ∈ F.blocks) : name ∈ F.withoutDeclarations.blocks := by
  induction F with
  | nil => exact member
  | cons content children rest _ ih =>
    rw [withoutDeclarations]
    rcases mem_blocks_cons.1 member with rfl | below | behind
    · exact mem_blocks_cons.2 (.inl rfl)
    · cases content with
      | text characters => exact mem_blocks_cons.2 (.inr (.inl below))
      | block condition => exact mem_blocks_cons.2 (.inr (.inl below))
      | declaration declared =>
        rw [tidy.1] at below
        cases below
    · split
      · exact ih tidy.rest behind
      · exact mem_blocks_cons.2 (.inr (.inr (ih tidy.rest behind)))

end Forest

namespace Document.Tree

variable {tree after : Tree} {id : NodeId} {node : Node} {F : Forest Content}

/-! ## Levels -/

/-- The nodes at a forest's labels in pre-order, each with its depth. -/
def levelsOf (tree : Tree) (depth : Nat) (F : Forest NodeId) : List (Nat × Node) :=
  (F.levels depth).filterMap fun (depth, id) => (tree.node? id).map (depth, ·)

theorem firstChild_of_node? (found : tree.node? id = some node) :
    tree.firstChild (some id) = node.firstChild := by
  rw [firstChild, found]
  rfl

theorem next?_of_node? (found : tree.node? id = some node) : tree.next? id = node.next := by
  rw [next?, found]
  rfl

theorem forestFrom_of_node? (found : tree.node? id = some node) (room : Nat) :
    tree.forestFrom (room + 1) (some id) =
      .cons id (tree.forestFrom room node.firstChild) (tree.forestFrom room node.next) := by
  rw [forestFrom, firstChild_of_node? found, next?_of_node? found]

theorem forestFrom_none (tree : Tree) (room : Nat) : tree.forestFrom room none = .nil := by
  cases room <;> rfl

theorem forestFrom_of_eq_none (absent : tree.node? id = none) (room : Nat) :
    tree.forestFrom (room + 1) (some id) = .cons id .nil .nil := by
  have below : tree.firstChild (some id) = none := by
    rw [firstChild, absent]
    rfl
  have behind : tree.next? id = none := by
    rw [next?, absent]
    rfl
  rw [forestFrom, below, behind, forestFrom_none]

theorem levelsOf_cons (found : tree.node? id = some node) (depth : Nat)
    (below behind : Forest NodeId) :
    tree.levelsOf depth (.cons id below behind) = (depth, node) ::
      (tree.levelsOf (depth + 1) below ++ tree.levelsOf depth behind) := by
  rw [levelsOf, Forest.levels, List.filterMap_cons_some, List.filterMap_append, levelsOf, levelsOf]
  show (tree.node? id).map _ = _
  rw [found, Option.map_some]

theorem levelsOf_forestFrom (found : tree.node? id = some node) (room depth : Nat) :
    tree.levelsOf depth (tree.forestFrom (room + 1) (some id)) = (depth, node) ::
      (tree.levelsOf (depth + 1) (tree.forestFrom room node.firstChild) ++
        tree.levelsOf depth (tree.forestFrom room node.next)) := by
  rw [forestFrom_of_node? found, levelsOf_cons found]

section Visit

variable {m : Type → Type} [Monad m] [LawfulMonad m] {visitor : NodeId → Node → m Bool}
  {act : Node → m Unit}

theorem visit_forestFrom (goesOn : ∀ id node, visitor id node = do act node; return true)
    (room depth : Nat) (start : Option NodeId) :
    ((tree.forestFrom room start).visit fun id =>
      match tree.node? id with
      | some node => visitor id node
      | none => pure false) =
    ((tree.levelsOf depth (tree.forestFrom room start)).map Prod.snd).forM act := by
  induction room generalizing start depth with
  | zero => rfl
  | succ room ih =>
    cases start with
    | none => rfl
    | some id =>
      cases found : tree.node? id with
      | none =>
        rw [forestFrom_of_eq_none found]
        simp [Forest.visit, found, levelsOf, Forest.levels]
      | some node =>
        rw [levelsOf_forestFrom found, forestFrom_of_node? found, Forest.visit,
          ih (depth + 1) node.firstChild, ih depth node.next, found]
        simp only [goesOn, List.map_cons, List.map_append, List.forM_eq_forM, List.forM_cons,
          List.forM_append, bind_assoc, pure_bind, if_true]

/-- A visit that goes on below every node comes by the nodes that can be reached in pre-order. -/
theorem visit_eq_forM (tree : Tree)
    (goesOn : ∀ id node, visitor id node = do act node; return true) :
    tree.visit visitor = (tree.levels.map Prod.snd).forM act :=
  visit_forestFrom goesOn tree.nodes.length 0 tree.first

end Visit

/-! ## What a tree shows -/

def content? (tree : Tree) (id : NodeId) : Option Content := (tree.node? id).map Node.content

/-- The contents of the nodes that can be reached make this forest. -/
def Shows (tree : Tree) (F : Forest Content) : Prop := tree.forest.map tree.content? = F.map some

theorem Shows.unique {G : Forest Content} (shows_ : tree.Shows F) (also : tree.Shows G) : F = G :=
  Forest.map_injective (fun _ _ => Option.some.inj) (shows_.symm.trans also)

theorem Shows.toList (shows_ : tree.Shows F) :
    tree.forest.toList.map tree.content? = F.toList.map some := by
  rw [← Forest.toList_map, ← Forest.toList_map, shows_]

theorem Shows.mem_toList_iff (shows_ : tree.Shows F) {content : Content} :
    content ∈ F.toList ↔ ∃ id ∈ tree.forest.toList, tree.content? id = some content := by
  rw [← List.mem_map, shows_.toList, List.mem_map]
  exact ⟨fun member => ⟨content, member, rfl⟩,
    fun ⟨_, member, same⟩ => Option.some.inj same ▸ member⟩

/-- The nodes that can be reached have the contents of the forest, in its order. -/
theorem Shows.levels (shows_ : tree.Shows F) :
    tree.levels.map (fun (_, node) => node.content) = F.toList := by
  have reached : tree.levels.map (fun (_, node) => node.content) =
      (tree.forest.toList.map tree.content?).filterMap id := by
    rw [Tree.levels, ← Forest.map_snd_levels _ 0, List.map_map, List.filterMap_map,
      List.map_filterMap]
    refine List.filterMap_congr fun (depth, id) _ => ?_
    simp [content?, Function.comp_def]
  rw [reached, shows_.toList, List.filterMap_map]
  exact List.filterMap_some

/-! ## Contents by lists -/

variable {lists : Option NodeId → List NodeId}

theorem lt_of_mem_grow (listed : tree.Listed lists) {room : Nat} {ids : List NodeId}
    (known : ∀ id ∈ ids, id < tree.nodes.length) (member : id ∈ (grow lists room ids).toList) :
    id < tree.nodes.length := by
  induction room generalizing ids with
  | zero => cases member
  | succ room ih =>
    induction ids with
    | nil => cases member
    | cons first rest ihRest =>
      rw [grow_cons, Forest.toList] at member
      rcases List.mem_cons.1 member with rfl | member
      · exact known _ List.mem_cons_self
      rcases List.mem_append.1 member with below | behind
      · exact ih (fun _ inside => listed.lt_length inside) below
      · exact ihRest (fun id inside => known id (List.mem_cons_of_mem _ inside)) behind

/-- Every node that can be reached is there, so a tree shows a forest. -/
theorem Listed.exists_shows (listed : tree.Listed lists) : ∃ F, tree.Shows F := by
  refine ⟨tree.forest.map fun id => (tree.content? id).getD (.text ""), ?_⟩
  rw [Shows, Forest.map_map]
  refine Forest.map_congr fun id member => ?_
  rw [listed.forest_eq] at member
  have inside := lt_of_mem_grow listed (fun _ => listed.lt_length) member
  obtain ⟨node, found⟩ := exists_node? inside
  simp [content?, found]

theorem mem_grow {room : Nat} {ids : List NodeId} (member : id ∈ ids) :
    id ∈ (grow lists (room + 1) ids).toList := by
  induction ids with
  | nil => cases member
  | cons first rest ih =>
    rw [grow_cons, Forest.toList]
    rcases List.mem_cons.1 member with rfl | behind
    · exact List.mem_cons_self
    · exact List.mem_cons_of_mem _ (List.mem_append_right _ (ih behind))

/-- Nodes below a node that can be reached can be reached. -/
theorem mem_grow_of_mem (listed : tree.Listed lists) {bound room : Nat} {ids : List NodeId}
    (beyond : ∀ id ∈ ids, bound ≤ id) (enough : tree.nodes.length ≤ room + bound) {parent : NodeId}
    (member : parent ∈ (grow lists room ids).toList) (below : id ∈ lists (some parent)) :
    id ∈ (grow lists room ids).toList := by
  induction room generalizing ids bound with
  | zero => cases member
  | succ room ih =>
    induction ids with
    | nil => cases member
    | cons first rest ihRest =>
      have atLeast := beyond first List.mem_cons_self
      rw [grow_cons, Forest.toList] at member ⊢
      refine List.mem_cons_of_mem _ (List.mem_append.2 ?_)
      rcases List.mem_cons.1 member with rfl | member
      · have inside := Nat.lt_of_lt_of_le (listed.lt_length below) enough
        have high : bound + 1 < room + 1 + bound :=
          Nat.lt_of_le_of_lt (Nat.lt_of_le_of_lt atLeast (listed.above parent id below)) inside
        obtain ⟨room, rfl⟩ : ∃ less, room = less + 1 := ⟨room - 1, by omega⟩
        exact .inl (mem_grow below)
      · refine (List.mem_append.1 member).imp (fun inner => ?_) (fun later => ?_)
        · exact ih (listed.above first)
            (Nat.le_trans enough (by omega : room + 1 + bound ≤ room + (first + 1))) inner
        · exact ihRest (fun id inside => beyond id (List.mem_cons_of_mem _ inside)) later

/-- The node is in the top-level list, or below a node that is. -/
inductive Attached (tree : Tree) : NodeId → Prop
  | topLevel {id : NodeId} (member : id ∈ tree.children none) : Attached tree id
  | child {parent id : NodeId} (attached : Attached tree parent)
      (member : id ∈ tree.children (some parent)) : Attached tree id

theorem Listed.mem_forest_of_attached (listed : tree.Listed lists) (attached : tree.Attached id) :
    id ∈ tree.forest.toList := by
  rw [listed.forest_eq]
  induction attached with
  | topLevel member =>
    rw [listed.children_eq] at member
    obtain ⟨room, same⟩ := Nat.exists_eq_add_of_lt
      (Nat.lt_of_le_of_lt (Nat.zero_le _) (listed.lt_length member))
    rw [same]
    exact mem_grow member
  | child _ member ih =>
    rw [listed.children_eq] at member
    exact mem_grow_of_mem listed (fun _ _ => Nat.zero_le _) (Nat.le_refl _) ih member

/-- If every node is in a list, then every node can be reached. -/
theorem Listed.mem_forest (listed : tree.Listed lists)
    (attached : ∀ id, id < tree.nodes.length → ∃ parent, id ∈ lists parent)
    (inside : id < tree.nodes.length) : id ∈ tree.forest.toList := by
  refine listed.mem_forest_of_attached ?_
  induction id using Nat.strongRecOn with
  | ind id ih =>
    obtain ⟨parent, member⟩ := attached id inside
    rw [← listed.children_eq] at member
    cases parent with
    | none => exact .topLevel member
    | some parent =>
      have above := listed.above parent id (listed.children_eq _ ▸ member)
      exact .child (ih parent above (Nat.lt_trans above inside)) member

/-- If only blocks have lists, then only blocks of the forest have something below them. -/
theorem Listed.blocksOnly (listed : tree.Listed lists)
    (blocks : ∀ id, lists (some id) ≠ [] → ∃ name, tree.content? id = some (.block name))
    (shows_ : tree.Shows F) : F.BlocksOnly := by
  rw [Shows, listed.forest_eq] at shows_
  generalize tree.nodes.length = room, lists none = ids at shows_
  induction room generalizing ids F with
  | zero =>
    cases F with
    | nil => trivial
    | cons content children rest => cases shows_
  | succ room ih =>
    induction ids generalizing F with
    | nil =>
      cases F with
      | nil => trivial
      | cons content children rest => cases shows_
    | cons first ids ihRest =>
      cases F with
      | nil => cases shows_
      | cons content children rest =>
        rw [grow_cons, Forest.map, Forest.map] at shows_
        injection shows_ with content? below behind
        have childless : (∀ name, content ≠ .block name) → children = .nil := fun other => by
          have empty : lists (some first) = [] := Decidable.by_contra fun some_ => by
            obtain ⟨name, block⟩ := blocks first some_
            exact other name (Option.some.inj (content?.symm.trans block))
          rw [empty, grow_nil] at below
          cases children with
          | nil => rfl
          | cons => cases below
        cases content with
        | text characters => exact ⟨childless (fun _ => nofun), ihRest behind⟩
        | block condition => exact ⟨ih _ below, ihRest behind⟩
        | declaration declared => exact ⟨childless (fun _ => nofun), ihRest behind⟩

end Document.Tree

end ConfigTemplate
