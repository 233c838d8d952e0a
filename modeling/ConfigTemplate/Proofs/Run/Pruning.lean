import ConfigTemplate.Proofs.Document.Edits
import ConfigTemplate.Proofs.Run.Decided

/-!
# The tree without its declarations

Filtering goes over the top-level list twice and removes nodes while it reads the links around them.
What it comes to is said by the list as it was before: the declarations go, and the blank texts
whose neighbours in this list are both declarations. No removal makes another node a connector, and
none hides one.

Results:
1. `mem_dropConnectors_iff`: a connector is recognized by its place in the list.
2. `filtered_withoutDeclarations`: what filtering leaves of a tree.
3. `history_filters`: so it is in every run.
-/

namespace ConfigTemplate.Run

open Document (Content Node NodeId Tree)
open Document.Tree (Pruned)
open Forest (isConnector)

section Lists

variable {tree after : Tree} {lists : Option NodeId → List NodeId} {id : NodeId}
  {ids : List NodeId}

/-! ## Connectors -/

/-- The node is a blank text whose neighbours in the list are both declarations. -/
def Connects (tree : Tree) (ids : List NodeId) (id : NodeId) : Prop :=
  nodeIs tree Content.isBlankText (some id) ∧ ∃ before prev next behind,
    ids = before ++ prev :: id :: next :: behind ∧
    nodeIs tree Content.isDeclaration (some prev) ∧ nodeIs tree Content.isDeclaration (some next)

theorem connects_iff : Connects tree ids id ↔ ∃ before behind, ids = before ++ id :: behind ∧
    (tree.content? id).any
      (isConnector (before.getLast? >>= tree.content?) · (behind.head? >>= tree.content?)) := by
  constructor
  · rintro ⟨blank, before, prev, next, behind, rfl, left, right⟩
    rw [nodeIs_eq] at blank left right
    obtain ⟨content, found, blank⟩ := (Option.any_eq_true _ _).1 blank
    have found : tree.content? id = some content := found
    have left : (tree.content? prev).any Content.isDeclaration := left
    have right : (tree.content? next).any Content.isDeclaration := right
    refine ⟨before ++ [prev], next :: behind, List.append_cons .., ?_⟩
    simp [found, isConnector, blank, left, right]
  · rintro ⟨before, behind, rfl, connects⟩
    obtain ⟨content, found, connects⟩ := (Option.any_eq_true _ _).1 connects
    simp only [isConnector, Bool.and_eq_true] at connects
    obtain ⟨⟨blank, left⟩, right⟩ := connects
    rcases before.eq_nil_or_concat with rfl | ⟨before, prev, rfl⟩
    · cases left
    rcases behind with _ | ⟨next, behind⟩
    · cases right
    rw [List.concat_eq_append, List.getLast?_concat] at left
    refine ⟨?_, before, prev, next, behind, by simp, ?_, ?_⟩
    · rw [nodeIs_eq]
      show (tree.content? id).any _
      rw [found]
      exact blank
    · rw [nodeIs_eq]
      exact left
    · rw [nodeIs_eq]
      exact right

/-- A node stays in a list without connectors if it is none by its place in the whole list. -/
theorem mem_dropConnectors_iff {front : List NodeId} (distinct : (front ++ ids).Nodup) :
    id ∈ dropConnectors tree.content? (front.getLast? >>= tree.content?) ids ↔
      id ∈ ids ∧ ¬ Connects tree (front ++ ids) id := by
  induction ids generalizing front with
  | nil => simp [dropConnectors]
  | cons first rest ih =>
    have fresh : first ∉ rest := (List.nodup_cons.1 (List.nodup_append.1 distinct).2.1).1
    have notBefore : first ∉ front := fun member =>
      (List.nodup_append.1 distinct).2.2 first member first List.mem_cons_self rfl
    have further : id ∈ dropConnectors tree.content? (tree.content? first) rest ↔
        id ∈ rest ∧ ¬ Connects tree (front ++ first :: rest) id := by
      have behind := @ih (front ++ [first]) (by rwa [← List.append_cons])
      rwa [← List.append_cons, List.getLast?_concat] at behind
    have here : Connects tree (front ++ first :: rest) first ↔ (tree.content? first).any
        (isConnector (front.getLast? >>= tree.content?) · (rest.head? >>= tree.content?)) := by
      rw [connects_iff]
      constructor
      · rintro ⟨before, behind, split, connects⟩
        -- The node has only one place in the list.
        obtain ⟨rfl, -, rfl⟩ := (List.append_cons_inj_of_notMem notBefore fresh).1 split
        exact connects
      · exact fun connects => ⟨front, rest, rfl, connects⟩
    rw [dropConnectors]
    split
    · rename_i connects
      rw [further, List.mem_cons]
      constructor
      · rintro ⟨member, stays⟩
        exact ⟨.inr member, stays⟩
      · rintro ⟨rfl | member, stays⟩
        · exact absurd (here.2 connects) stays
        · exact ⟨member, stays⟩
    · rename_i stays
      rw [List.mem_cons, further, List.mem_cons]
      constructor
      · rintro (rfl | ⟨member, stays⟩)
        · exact ⟨.inl rfl, mt here.1 stays⟩
        · exact ⟨.inr member, stays⟩
      · rintro ⟨rfl | member, stays⟩
        · exact .inl rfl
        · exact .inr ⟨member, stays⟩

/-! ## What filtering leaves -/

/-- The second tree is the first one without the declarations of its top-level list and without the
blank texts between two of them. -/
structure Filtered (tree after : Tree) : Prop where
  distinct : (tree.children none).Nodup
  /-- What is left of the top-level list keeps its order. -/
  order : (after.children none).Sublist (tree.children none)
  left : ∀ id, id ∈ after.children none ↔ id ∈ tree.children none ∧
    ¬ nodeIs tree Content.isDeclaration (some id) ∧ ¬ Connects tree (tree.children none) id
  /-- No node gets another parent, content or line. -/
  entry : ∀ id, (after.node? id).map Node.entry = (tree.node? id).map Node.entry
  below : ∀ id, after.children (some id) = tree.children (some id)
  ends : ∀ parent, after.firstChild parent = (after.children parent).head? ∧
    after.lastChild parent = (after.children parent).getLast?
  neighbours : ∀ parent before id behind, after.children parent = before ++ id :: behind →
    after.prev? id = before.getLast? ∧ after.next? id = behind.head?
  inverse : ∀ id other, after.next? id = some other ↔ after.prev? other = some id

/-- Steps that remove nodes change no entry. -/
theorem entry_foldl {step : Tree → NodeId → Tree}
    (removes : ∀ tree id, step tree id = tree.remove id ∨ step tree id = tree) (ids : List NodeId)
    (tree : Tree) (other : NodeId) :
    ((ids.foldl step tree).node? other).map Node.entry = (tree.node? other).map Node.entry := by
  induction ids generalizing tree with
  | nil => rfl
  | cons id rest ih =>
    rw [List.foldl_cons, ih]
    rcases removes tree id with same | same
    · rw [same]
      exact Tree.map_node?_remove (fun _ _ _ _ => rfl) tree id other
    · rw [same]

theorem entry_withoutDeclarations (tree : Tree) (other : NodeId) :
    ((withoutDeclarations tree).node? other).map Node.entry =
      (tree.node? other).map Node.entry := by
  have first : ∀ tree id,
      removeConnector tree id = tree.remove id ∨ removeConnector tree id = tree :=
    fun tree id => ite_eq_or_eq _ _ _
  have second : ∀ tree id,
      removeDeclaration tree id = tree.remove id ∨ removeDeclaration tree id = tree :=
    fun tree id => ite_eq_or_eq _ _ _
  exact (entry_foldl second _ _ other).trans (entry_foldl first _ _ other)

/-- The top-level list behind the two passes, by the one before them. -/
theorem filtered_withoutDeclarations (listed : tree.Listed lists) :
    Filtered tree (withoutDeclarations tree) := by
  have pruned := pruned_withoutDeclarations listed
  have same := listed.children_eq
  have children := pruned.listed.children_eq
  have topLevel := children none
  rw [Function.update_self] at topLevel
  refine ⟨?distinct, ?order, ?left, entry_withoutDeclarations tree, ?below, ?ends, ?neighbours,
    ?inverse⟩
  case distinct =>
    rw [same]
    exact listed.nodup none
  case order =>
    rw [topLevel, same]
    exact List.filter_sublist.trans (dropConnectors_sublist _ _ _)
  case left =>
    intro id
    have stays : id ∈ dropConnectors tree.content? none (lists none) ↔
        id ∈ lists none ∧ ¬ Connects tree (lists none) id :=
      @mem_dropConnectors_iff tree id (lists none) [] (listed.nodup none)
    have declares : nodeIs tree Content.isDeclaration (some id) =
        (tree.content? id).any Content.isDeclaration := nodeIs_eq tree _ _
    rw [topLevel, same, List.mem_filter, stays, ← declares, Bool.not_eq_true', Bool.not_eq_true]
    tauto
  case below =>
    intro id
    rw [children, same, Function.update_of_ne (Option.some_ne_none id)]
  case ends =>
    intro parent
    rw [children]
    exact ⟨pruned.listed.firstChild parent, pruned.listed.lastChild parent⟩
  case neighbours =>
    intro parent before id behind split
    rw [children] at split
    exact ⟨pruned.listed.prev?_eq split, pruned.listed.next?_eq split⟩
  case inverse => exact fun id other => pruned.listed.next?_iff_prev?

end Lists

/-- Whatever calls have been made on a run: once its conditions are seeded, it can be filtered, and
this takes the declarations of the top-level list and the blank texts between two of them out of its
tree, and changes nothing else. -/
theorem history_filters (request : Request) (directory : String) (calls : List (Call × Store)) :
    ∀ called ∈ history calls (start request directory), called.after.stage = .conditionsSeeded →
      ∃ tree, filterTree called.after =
          (.ok (), { called.after with tree, stage := .treeFiltered }) ∧
        Filtered called.after.tree tree := by
  intro called member reached
  obtain ⟨lists, listed⟩ := (history_kept calls (kept_start request directory) called member).listed
  refine ⟨withoutDeclarations called.after.tree, ?_, filtered_withoutDeclarations listed⟩
  rw [filterTree, expect_bind_eq _ reached]
  rfl

/-- A template with two declarations in lines of their own, and a block with a third one. -/
def exTidy : Store :=
  exTemplate "<project name=\"p\"/>\n<config name=\"a\"/>\n<a> <define name=\"b\">a</define> </a>\n"

/-- Of the blank texts only the one between the two declarations goes; those beside the block and
those inside of it stay. -/
theorem exTidy_filters :
    let calls : List (Call × Store) :=
      [(.step .parse, exTidy), (.step .extractDefinitions, exTidy), (.step .seedConditions, exTidy)]
    let request : Request := ⟨"t", "o", [], [], .empty, .yes⟩
    let parsed := Called.of id (.step .parse) (start request "") exTidy
    let extracted := Called.of id (.step .extractDefinitions) parsed.after exTidy
    let called := Called.of id (.step .seedConditions) extracted.after exTidy
    called ∈ history calls (start request "") ∧ called.after.stage = .conditionsSeeded ∧
      called.after.tree.children none = [0, 1, 2, 3, 4, 8] ∧
      ∃ tree, filterTree called.after =
          (.ok (), { called.after with tree, stage := .treeFiltered }) ∧
        Filtered called.after.tree tree ∧ tree.children none = [3, 4, 8] ∧
        tree.children (some 4) = [5, 6, 7] := by
  intro calls request parsed extracted called
  have member : called ∈ history calls (start request "") := by
    have last : called ∈ history [(.step .seedConditions, exTidy)] extracted.after :=
      List.mem_cons_self
    exact List.mem_cons_of_mem _ (List.mem_cons_of_mem _ last)
  have reached : called.after.stage = .conditionsSeeded := by decide +kernel
  have topLevel : called.after.tree.children none = [0, 1, 2, 3, 4, 8] := by decide +kernel
  have left : (filterTree called.after).2.tree.children none = [3, 4, 8] := by decide +kernel
  have below : called.after.tree.children (some 4) = [5, 6, 7] := by decide +kernel
  obtain ⟨tree, filters, filtered⟩ := history_filters request "" calls called member reached
  rw [filters] at left
  exact ⟨member, reached, topLevel, tree, filters, filtered, left, (filtered.below 4).trans below⟩

end ConfigTemplate.Run
