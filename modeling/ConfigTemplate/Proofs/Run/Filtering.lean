import ConfigTemplate.Proofs.Document.Contents
import ConfigTemplate.Run.Steps

/-!
# Filtering the tree

Before the output is made, the declarations of the top-level list are removed, and the blank texts
between two of them. The nodes are removed one by one while the links change; the results here say
what that comes to for the list, and for the forest that the tree shows.

Results:
1. `pruned_withoutDeclarations`: the top-level list that is left, and that all else stays.
2. `shows_withoutDeclarations`: the forest of the tree afterwards, by the forest that it showed
   before.
-/

namespace ConfigTemplate

open Document (Content Node NodeId Tree)

namespace Document.Tree

variable {tree after : Tree} {lists : Option NodeId → List NodeId} {id : NodeId}

/-- The second tree is the first one with another top-level list. -/
structure Pruned (tree after : Tree) (lists : Option NodeId → List NodeId)
    (topLevel : List NodeId) : Prop where
  listed : after.Listed (Function.update lists none topLevel)
  length : after.nodes.length = tree.nodes.length
  content? : after.content? = tree.content?
  lines : ∀ id, (after.node? id).map Node.line = (tree.node? id).map Node.line

theorem Pruned.refl (listed : tree.Listed lists) : tree.Pruned tree lists (lists none) where
  listed := by rwa [Function.update_eq_self]
  length := rfl
  content? := rfl
  lines _ := rfl

theorem map_node?_remove {α : Type} {f : Node → α} (same : ∀ id removed other node,
    f (relinked id removed other node) = f node) (tree : Tree) (id other : NodeId) :
    ((tree.remove id).node? other).map f = (tree.node? other).map f := by
  rcases found : tree.node? id with _ | removed
  · rw [remove, found]
  · rw [node?_remove found, Option.map_map]
    exact congrArg (Option.map · _) (funext fun node => same id removed other node)

theorem Pruned.remove {before behind : List NodeId}
    (pruned : tree.Pruned after lists (before ++ id :: behind)) :
    tree.Pruned (after.remove id) lists (before ++ behind) where
  listed := by
    have listed := pruned.listed.remove (Function.update_self none (before ++ id :: behind) lists)
    rwa [Function.update_idem] at listed
  length := (after.length_remove id).trans pruned.length
  content? := by
    rw [← pruned.content?]
    exact funext fun other => map_node?_remove (fun _ _ _ _ => rfl) after id other
  lines other := (map_node?_remove (fun _ _ _ _ => rfl) after id other).trans (pruned.lines other)

end Document.Tree

namespace Run

open Document.Tree (Pruned)
open Forest (isConnector)

variable {tree after : Tree} {lists : Option NodeId → List NodeId} {id : NodeId}

/-! ## The list that is left -/

/-- A list without the blank texts between two declarations. The content before the list is given.
-/
def dropConnectors (content? : NodeId → Option Content) (prev : Option Content) :
    List NodeId → List NodeId
  | [] => []
  | id :: rest =>
    let behind := dropConnectors content? (content? id) rest
    if (content? id).any (isConnector prev · (rest.head? >>= content?)) then behind
    else id :: behind

theorem dropConnectors_sublist (content? : NodeId → Option Content) (prev : Option Content)
    (ids : List NodeId) : (dropConnectors content? prev ids).Sublist ids := by
  induction ids generalizing prev with
  | nil => exact .slnil
  | cons id rest ih =>
    rw [dropConnectors]
    split
    · exact (ih _).cons _
    · exact (ih _).cons_cons _

/-- Declarations are no connectors. -/
theorem mem_dropConnectors {content? : NodeId → Option Content} {prev : Option Content}
    {ids : List NodeId} (member : id ∈ ids)
    (declares : (content? id).any Content.isDeclaration) :
    id ∈ dropConnectors content? prev ids := by
  induction ids generalizing prev with
  | nil => cases member
  | cons first rest ih =>
    rw [dropConnectors]
    rcases List.mem_cons.1 member with rfl | later
    · have stays : ¬ (content? id).any (isConnector prev · (rest.head? >>= content?)) := by
        obtain ⟨content, found, declares⟩ := (Option.any_eq_true _ _).1 declares
        have notBlank : content.isBlankText = false := by
          cases content <;> first | rfl | cases declares
        simp [found, isConnector, notBlank]
      rw [if_neg stays]
      exact List.mem_cons_self
    · split
      · exact ih later
      · exact List.mem_cons_of_mem _ (ih later)

theorem nodeIs_eq (tree : Tree) (property : Content → Bool) (id : Option NodeId) :
    nodeIs tree property id = (id >>= tree.content?).any property := by
  rcases id with _ | id
  · rfl
  · rcases found : tree.node? id with _ | node <;> simp [nodeIs, Tree.content?, found]

theorem removeConnector_eq {before rest : List NodeId} (pruned : tree.Pruned after lists
    (before ++ id :: rest)) :
    removeConnector after id =
      if (tree.content? id).any
        (isConnector (before.getLast? >>= tree.content?) · (rest.head? >>= tree.content?))
      then after.remove id else after := by
  have split := Function.update_self none (before ++ id :: rest) lists
  rw [removeConnector, nodeIs_eq, nodeIs_eq, nodeIs_eq, pruned.listed.prev?_eq split,
    pruned.listed.next?_eq split, pruned.content?]
  rcases same : tree.content? id with _ | content <;> simp [same, isConnector]

theorem isConnector_congr {before prev next : Option Content} {content : Content}
    (agrees : content.isBlankText →
      before.any Content.isDeclaration = prev.any Content.isDeclaration) :
    isConnector before content next = isConnector prev content next := by
  unfold isConnector
  cases blank : content.isBlankText with
  | false => rfl
  | true => rw [agrees blank]

theorem not_isDeclaration_of_isBlankText {content : Content} (blank : content.isBlankText) :
    content.isDeclaration = false := by
  cases content with
  | text characters => rfl
  | block condition => rfl
  | declaration declared => cases blank

/-- Each connector is recognized by what is left of the list: if the node before a blank text has
been removed, then as a connector, so the blank text was a declaration. -/
theorem pruned_foldl_removeConnector {kept ids : List NodeId} {prev : Option Content}
    (pruned : tree.Pruned after lists (kept ++ ids))
    (agrees : ∀ content, ids.head? >>= tree.content? = some content → content.isBlankText →
      (kept.getLast? >>= tree.content?).any Content.isDeclaration =
        prev.any Content.isDeclaration) :
    tree.Pruned (ids.foldl removeConnector after) lists
      (kept ++ dropConnectors tree.content? prev ids) := by
  induction ids generalizing after kept prev with
  | nil => exact pruned
  | cons id rest ih =>
    have same : (tree.content? id).any
          (isConnector (kept.getLast? >>= tree.content?) · (rest.head? >>= tree.content?)) =
        (tree.content? id).any (isConnector prev · (rest.head? >>= tree.content?)) := by
      rcases found : tree.content? id with _ | content
      · rfl
      · exact isConnector_congr fun blank => agrees content (by simp [found]) blank
    rw [List.foldl_cons, removeConnector_eq pruned, same, dropConnectors]
    split
    · rename_i connects
      refine ih pruned.remove fun content first blank => ?_
      -- What follows a connector is a declaration.
      obtain ⟨_, _, declares⟩ : ∃ content, tree.content? id = some content ∧
          (rest.head? >>= tree.content?).any Content.isDeclaration := by
        obtain ⟨content, found, connects⟩ := (Option.any_eq_true _ _).1 connects
        simp only [isConnector, Bool.and_eq_true] at connects
        exact ⟨content, found, connects.2⟩
      rw [first] at declares
      simp [not_isDeclaration_of_isBlankText blank] at declares
    · rw [List.append_cons] at pruned
      have further : tree.Pruned _ lists
          (kept ++ [id] ++ dropConnectors tree.content? (tree.content? id) rest) :=
        ih pruned fun content first blank => by simp
      rwa [List.append_assoc] at further

/-- Whether a node stays when the declarations among the given nodes are removed. -/
def remains (tree : Tree) (ids : List NodeId) (id : NodeId) : Bool :=
  !(ids.contains id && (tree.content? id).any Content.isDeclaration)

/-- Declarations are removed wherever they stand. -/
theorem pruned_foldl_removeDeclaration {current ids : List NodeId}
    (pruned : tree.Pruned after lists current) (distinct : ids.Nodup)
    (present : ∀ id ∈ ids, (tree.content? id).any Content.isDeclaration → id ∈ current) :
    tree.Pruned (ids.foldl removeDeclaration after) lists
      (current.filter (remains tree ids)) := by
  induction ids generalizing after current with
  | nil =>
    have all : current.filter (remains tree []) = current := List.filter_eq_self.2 fun _ _ => rfl
    rw [all]
    exact pruned
  | cons id rest ih =>
    obtain ⟨fresh, distinct⟩ := List.nodup_cons.1 distinct
    have declares : nodeIs after Content.isDeclaration (some id) =
        (tree.content? id).any Content.isDeclaration := by
      rw [nodeIs_eq, pruned.content?]
      rfl
    rw [List.foldl_cons, removeDeclaration, declares]
    split
    · rename_i declaration
      obtain ⟨before, behind, rfl⟩ := List.append_of_mem (present id List.mem_cons_self declaration)
      have nodup := pruned.listed.nodup none
      rw [Function.update_self] at nodup
      have further := ih pruned.remove distinct fun other member declares => by
        have := present other (List.mem_cons_of_mem _ member) declares
        grind
      have removed : (before ++ behind).filter (remains tree rest) =
          (before ++ id :: behind).filter (remains tree (id :: rest)) := by
        have apart : ∀ other ∈ before ++ behind, other ≠ id := by grind
        rw [List.filter_append, List.filter_append, List.filter_cons_of_neg
          (by simp [remains, declaration]), ← List.filter_append, ← List.filter_append]
        exact List.filter_congr fun other member => by simp [remains, apart other member]
      rwa [removed] at further
    · rename_i notDeclaration
      have further := ih pruned distinct fun other member declares =>
        present other (List.mem_cons_of_mem _ member) declares
      have unchanged : current.filter (remains tree rest) =
          current.filter (remains tree (id :: rest)) := by
        refine List.filter_congr fun other _ => ?_
        by_cases same : other = id <;> simp [remains, same, notDeclaration]
      rwa [unchanged] at further

/-- Filtering removes the declarations of the top-level list and the blank texts between two of
them, and nothing else. -/
theorem pruned_withoutDeclarations (listed : tree.Listed lists) :
    tree.Pruned (withoutDeclarations tree) lists
      ((dropConnectors tree.content? none (lists none)).filter fun id =>
        !(tree.content? id).any Content.isDeclaration) := by
  have connected : tree.Pruned ((lists none).foldl removeConnector tree) lists
      ([] ++ dropConnectors tree.content? none (lists none)) :=
    pruned_foldl_removeConnector (Tree.Pruned.refl listed) fun _ _ _ => rfl
  have filtered := pruned_foldl_removeDeclaration connected (listed.nodup none)
    fun id member declares => mem_dropConnectors member declares
  have members : ∀ id ∈ dropConnectors tree.content? none (lists none), id ∈ lists none :=
    fun id => (dropConnectors_sublist _ _ _).mem
  have same : (dropConnectors tree.content? none (lists none)).filter (remains tree (lists none)) =
      (dropConnectors tree.content? none (lists none)).filter fun id =>
        !(tree.content? id).any Content.isDeclaration :=
    List.filter_congr fun id member => by simp [remains, members id member]
  rw [withoutDeclarations, listed.children_eq, ← same]
  exact filtered

/-! ## The forest that is left -/

theorem grow_congr {lists others : Option NodeId → List NodeId}
    (same : ∀ id, lists (some id) = others (some id)) (room : Nat) (ids : List NodeId) :
    Tree.grow lists room ids = Tree.grow others room ids := by
  induction room generalizing ids with
  | zero => rfl
  | succ room ih =>
    induction ids with
    | nil => rfl
    | cons id rest ihRest => rw [Tree.grow_cons, Tree.grow_cons, same, ih, ihRest]

theorem head?_eq_of_grow {content? : NodeId → Option Content} {room : Nat} {ids : List NodeId}
    {F : Forest Content} (shows_ : (Tree.grow lists (room + 1) ids).map content? = F.map some) :
    ids.head? >>= content? = F.roots.head? := by
  cases ids with
  | nil =>
    cases F with
    | nil => rfl
    | cons content children rest => cases shows_
  | cons id rest =>
    cases F with
    | nil => cases shows_
    | cons content children rest =>
      exact (Forest.cons.inj shows_).1

theorem grow_dropConnectors {content? : NodeId → Option Content} {room : Nat} {ids : List NodeId}
    {F : Forest Content} (shows_ : (Tree.grow lists room ids).map content? = F.map some)
    (prev : Option Content) :
    (Tree.grow lists room ((dropConnectors content? prev ids).filter fun id =>
      !(content? id).any Content.isDeclaration)).map content? =
        (F.withoutConnectors prev).withoutDeclarations.map some := by
  cases room with
  | zero =>
    cases F with
    | nil => rfl
    | cons content children rest => cases shows_
  | succ room =>
    induction ids generalizing F prev with
    | nil =>
      cases F with
      | nil => rfl
      | cons content children rest => cases shows_
    | cons id rest ih =>
      cases F with
      | nil => cases shows_
      | cons content children F =>
        injection shows_ with same below behind
        rw [dropConnectors, Forest.withoutConnectors, same, head?_eq_of_grow behind,
          Option.any_some]
        split
        · exact ih (some content) behind
        · rw [Forest.withoutDeclarations, List.filter_cons, same, Option.any_some]
          cases declares : content.isDeclaration with
          | true => exact ih (some content) behind
          | false =>
            have rest := ih (some content) behind
            simp only [Bool.not_false, if_true, Bool.false_eq_true, if_false, Tree.grow_cons,
              Forest.map, same, below, rest]

/-- What the filtered tree shows. -/
theorem shows_withoutDeclarations {F : Forest Content} (listed : tree.Listed lists)
    (shows_ : tree.Shows F) :
    (withoutDeclarations tree).Shows (F.withoutConnectors none).withoutDeclarations := by
  have pruned := pruned_withoutDeclarations listed
  rw [Tree.Shows, listed.forest_eq] at shows_
  rw [Tree.Shows, pruned.listed.forest_eq, pruned.length, pruned.content?, Function.update_self,
    grow_congr fun id => Function.update_of_ne (Option.some_ne_none id) _ _]
  exact grow_dropConnectors shows_ none

end Run

end ConfigTemplate
