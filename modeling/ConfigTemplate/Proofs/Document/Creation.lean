import ConfigTemplate.Proofs.Document.Edits
import ConfigTemplate.Proofs.Document.Refusal

/-!
# Nodes in the order of their creation

An event that an assembly receives creates one node at most, at the end of what is there. A
declaration becomes a node only when it is closed, and blocks are opened and closed at any depth; but
the insertion point is always the innermost open block, which is the last node on the way down from
the top. So a walk over the tree comes by the nodes as they were created, whatever events have come
and whether or not they were accepted.

Results:
1. `Tree.walked_eq`: the walk over a tree whose pre-order is that of the numbers.
2. `Assembly.exists_adds`: what one event does to the tree and to the open blocks.
3. `Assembly.entries_answers`: a tree holds what the events have created, one after the other.
4. `Assembly.answers_documentOrder`: the walk, the open blocks and the texts after any events.
-/

namespace ConfigTemplate

/-! ## Visits that go on everywhere -/

namespace Forest

variable {α : Type} {m : Type → Type} [Monad m] [LawfulMonad m]

/-- A visitor that goes on below every label acts on the labels in pre-order. -/
theorem visit_eq_forM {forest : Forest α} {visitor : α → m Bool} {act : α → m Unit}
    (goesOn : ∀ label ∈ forest.toList, visitor label = do act label; return true) :
    forest.visit visitor = forest.toList.forM act := by
  induction forest with
  | nil => rfl
  | cons label children rest ihChildren ihRest =>
    have below := ihChildren fun inner member => goesOn inner (by simp [toList, member])
    have behind := ihRest fun later member => goesOn later (by simp [toList, member])
    rw [visit, goesOn label List.mem_cons_self, toList]
    simp [below, behind]

end Forest

/-- What is noted down for each of several labels. -/
theorem forM_modify_append {α β : Type} (labels : List α) (notes : α → List β) (noted : List β) :
    (labels.forM fun label => (modify (· ++ notes label) : StateM (List β) Unit)).run noted =
      ((), noted ++ labels.flatMap notes) := by
  induction labels generalizing noted with
  | nil => exact congrArg (Prod.mk ()) (List.append_nil noted).symm
  | cons label rest ih =>
    rw [List.flatMap_cons, ← List.append_assoc]
    exact ih (noted ++ notes label)

namespace Document

open Markup (Attributes Event HandlerM ParseError)

namespace Tree

variable {tree : Tree} {lists : Option NodeId → List NodeId} {id : NodeId}

/-- The nodes that a visitor is called with which goes on below each of them, with their numbers. -/
def walked (tree : Tree) : List (Node × NodeId) :=
  ((tree.visit fun id node => do
    modify (· ++ [(node, id)])
    return true : StateM (List (Node × NodeId)) Unit).run []).2

/-- If the numbers are in pre-order, then a walk comes by all nodes in the order of their numbers. -/
theorem walked_eq (inOrder : tree.forest.toList = List.range tree.nodes.length) :
    tree.walked = tree.nodes.zipIdx := by
  let noted (id : NodeId) : List (Node × NodeId) := (tree.node? id).toList.map (·, id)
  have visits : (tree.visit fun id node => do
      modify (· ++ [(node, id)])
      return true : StateM (List (Node × NodeId)) Unit) =
      tree.forest.toList.forM fun id => modify (· ++ noted id) := by
    refine Forest.visit_eq_forM fun id member => ?_
    have inside : id < tree.nodes.length := List.mem_range.1 (inOrder ▸ member)
    obtain ⟨node, found⟩ := exists_node? inside
    simp only [noted, found]
    rfl
  have numbers : tree.forest.toList = tree.nodes.zipIdx.map Prod.snd := by
    rw [inOrder, List.zipIdx_map_snd, List.range_eq_range']
  have single : ∀ call ∈ tree.nodes.zipIdx, noted call.2 = [call] := by
    intro call member
    have found : tree.node? call.2 = some call.1 := List.mem_zipIdx_iff_getElem?.1 member
    simp only [noted, found]
    rfl
  calc tree.walked
      = tree.forest.toList.flatMap noted := by
        rw [walked, visits, forM_modify_append]
        exact List.nil_append _
    _ = tree.nodes.zipIdx.flatMap fun call => noted call.2 := by rw [numbers, List.flatMap_map]
    _ = tree.nodes.zipIdx.flatMap fun call => [call] := List.flatMap_congr single
    _ = tree.nodes.zipIdx := List.flatMap_singleton' _

/-! ## The way up -/

/-- The nodes from a given one up to the top level, each followed by its parent. -/
inductive Upward (tree : Tree) : Option NodeId → List NodeId → Prop
  | top : Upward tree none []
  | node {id : NodeId} {node : Node} {above : List NodeId} (found : tree.node? id = some node)
      (further : Upward tree node.parent above) : Upward tree (some id) (id :: above)

/-- A path of last nodes leads down the way that leads up from its end. -/
theorem LastPath.upward (listed : tree.Listed lists) {top : Option NodeId} {path above : List NodeId}
    (last : LastPath lists top path) (start : tree.Upward top above) :
    tree.Upward (pathEnd top path) (path.reverse ++ above) := by
  induction path generalizing top above with
  | nil => exact start
  | cons id path ih =>
    obtain ⟨node, found, rfl⟩ := listed.node_of_mem (List.mem_of_getLast? last.1)
    rw [List.reverse_cons, List.append_assoc]
    exact ih last.2 (.node found start)

theorem LastPath.getLast?_of_append {top : Option NodeId} {front back : List NodeId}
    (last : LastPath lists top (front ++ id :: back)) :
    (lists (pathEnd top front)).getLast? = some id := by
  induction front generalizing top with
  | nil => exact last.1
  | cons first front ih => exact ih last.2

end Tree

/-- The text that a content is, with the line that it is on. -/
def Content.textOn? (content : Content) (line : Nat) : Option (String × Nat) :=
  match content with
  | .text characters => some (characters, line)
  | .block _ | .declaration _ => none

/-- The text of a node, with its line. -/
def Node.text? (node : Node) : Option (String × Nat) := node.content.textOn? node.line

namespace Assembly

/-! ## What events create -/

/-- What becomes of an event: the assembly before it, the answer to it and the assembly behind it. -/
structure Receipt where
  before : Assembly
  event : Event
  answer : Except ParseError (Option String)
  after : Assembly

namespace Receipt

def ofEvent (event : Event) (before : Assembly) : Receipt :=
  let received := handler.receive event before
  ⟨before, event, received.1, received.2⟩

/-- What the nodes have been given that the event adds to those before it. -/
def created (receipt : Receipt) : List (Option NodeId × Content × Nat) :=
  (receipt.after.tree.nodes.drop receipt.before.tree.nodes.length).map Node.entry

/-- The text and its line, if the event is a text that is accepted while no declaration is open. -/
def text? (receipt : Receipt) : Option (String × Nat) :=
  match receipt.event, receipt.answer with
  | .text content line, .ok _ =>
    if receipt.before.declarations = [] then some (content, line) else none
  | _, _ => none

end Receipt

/-- The receipts of events that are received one after the other, whatever becomes of each. -/
def receipts : List Event → Assembly → List Receipt
  | [], _ => []
  | event :: rest, before =>
    let receipt := Receipt.ofEvent event before
    receipt :: receipts rest receipt.after

/-- A step leaves the tree as it is and opens no block, or it appends a node at the insertion point,
which may be the only block that it opens. -/
inductive Adds (before : Assembly) : Option (Content × Nat) → Assembly → Prop
  | nothing {after : Assembly} (tree : after.tree = before.tree)
      (blocks : after.blocks ⊆ before.blocks) : Adds before none after
  | node {after : Assembly} {content : Content} {line : Nat}
      (tree : after.tree = (before.append content line).tree)
      (blocks : ∀ block ∈ after.blocks, block ∈ before.blocks ∨
        block.1 = before.tree.nodes.length ∧ content = .block block.2) :
      Adds before (some (content, line)) after

variable {before middle after : Assembly} {name : String} {attributes : Attributes} {line : Nat}
  {event : Event} {made : Option (Content × Nat)}

/-- A text becomes a node unless a declaration is open. -/
theorem onText_eq_ok {text : String} (received : onText text line before = (.ok (), after)) :
    (before.declarations = [] ∧ after = before.append (.text text) line) ∨
      (before.declarations ≠ [] ∧ after.tree = before.tree ∧ after.blocks = before.blocks) := by
  rw [onText, Attempt.run_get_bind] at received
  rcases isOpen : before.declarations with _ | ⟨current, outer⟩ <;> simp only [isOpen] at received
  · cases received
    exact .inl ⟨rfl, rfl⟩
  · obtain ⟨later, -, received⟩ := Attempt.run_ofExcept_bind_eq_ok_iff.1 received
    cases received
    exact .inr ⟨List.cons_ne_nil _ _, rfl, rfl⟩

/-- Opening an element creates nothing, unless it opens a block. -/
theorem onOpen_eq_ok (received : onOpen name attributes line before = (.ok (), after)) :
    (after.tree = before.tree ∧ after.blocks = before.blocks) ∨
      (before.declarations = [] ∧ after = before.openBlock name line) := by
  rw [onOpen, Attempt.run_get_bind] at received
  rcases isOpen : before.declarations with _ | ⟨current, outer⟩ <;> simp only [isOpen] at received
  · rcases kind : Keyword.ofElement? name with _ | keyword <;> simp only [kind] at received
    · split at received
      · rw [openInclude, Attempt.run_get_bind] at received
        split at received
        · cases received
        split at received <;> cases received
        exact .inl ⟨rfl, rfl⟩
      · cases received
        exact .inr ⟨rfl, rfl⟩
    · obtain ⟨started, -, received⟩ := Attempt.run_ofExcept_bind_eq_ok_iff.1 received
      cases received
      exact .inl ⟨rfl, rfl⟩
  · obtain ⟨⟨later, inner⟩, -, received⟩ := Attempt.run_ofExcept_bind_eq_ok_iff.1 received
    cases received
    exact .inl ⟨rfl, rfl⟩

theorem closeBlock_eq_ok (received : closeBlock name line before = (.ok (), after)) :
    after.tree = before.tree ∧ after.blocks ⊆ before.blocks := by
  rw [closeBlock, Attempt.run_get_bind] at received
  rcases opened : before.blocks with _ | ⟨block, outer⟩ <;> simp only [opened] at received
  · cases received
  · split at received <;> cases received
    exact ⟨rfl, List.subset_cons_self _ _⟩

/-- Closing an element creates nothing, unless it closes a declaration. -/
theorem onClose_eq_ok {answer : Option String}
    (received : onClose name line before = (.ok answer, after)) :
    after.blocks ⊆ before.blocks ∧ (after.tree = before.tree ∨ before.declarations ≠ [] ∧
      ∃ declared started, after.tree = (before.append (.declaration declared) started).tree) := by
  rw [onClose, Attempt.run_get_bind] at received
  rcases isOpen : before.declarations with _ | ⟨current, outer⟩ <;> simp only [isOpen] at received
  · have closing (closes : (closeBlock name line >>= fun _ => pure (none : Option String)) before =
        (.ok answer, after)) : after.tree = before.tree ∧ after.blocks ⊆ before.blocks := by
      obtain ⟨_, _, closes, same⟩ := Attempt.run_bind_eq_ok_iff.1 closes
      cases same
      exact closeBlock_eq_ok closes
    rcases pending : before.pendingInclude with _ | path <;> simp only [pending] at received
    · obtain ⟨tree, blocks⟩ := closing received
      exact ⟨blocks, .inl tree⟩
    · split at received
      · cases received
        exact ⟨List.Subset.refl _, .inl rfl⟩
      · obtain ⟨tree, blocks⟩ := closing received
        exact ⟨blocks, .inl tree⟩
  · obtain ⟨closed, -, received⟩ := Attempt.run_ofExcept_bind_eq_ok_iff.1 received
    cases closed with
    | some later =>
      cases received
      exact ⟨List.Subset.refl _, .inl rfl⟩
    | none =>
      cases received
      exact ⟨List.Subset.refl _, .inr ⟨List.cons_ne_nil _ _, _, _, rfl⟩⟩

/-- The text of what is made, with its line. -/
def textOf (made : Content × Nat) : Option (String × Nat) := made.1.textOn? made.2

theorem adds_onClose {answer : Option String}
    (received : onClose name line before = (.ok answer, after)) :
    ∃ made, before.Adds made after ∧ made.bind textOf = none := by
  obtain ⟨blocks, tree | ⟨-, declared, started, tree⟩⟩ := onClose_eq_ok received
  · exact ⟨none, .nothing tree blocks, rfl⟩
  · exact ⟨_, .node tree fun block member => .inl (blocks member), rfl⟩

/-- Appending depends on the tree and on the insertion point only. -/
theorem append_tree_congr (tree : middle.tree = before.tree) (blocks : middle.blocks = before.blocks)
    (content : Content) (line : Nat) :
    (middle.append content line).tree = (before.append content line).tree := by
  rw [append, append, insertionPoint, insertionPoint, tree, blocks]

theorem Adds.of_eq (tree : middle.tree = before.tree) (blocks : middle.blocks = before.blocks)
    (adds : middle.Adds made after) : before.Adds made after := by
  cases adds with
  | nothing same inside => exact .nothing (same.trans tree) (blocks ▸ inside)
  | node same inside =>
    exact .node (same.trans (append_tree_congr tree blocks _ _)) (blocks ▸ tree ▸ inside)

theorem mem_blocks_openBlock {block : NodeId × String}
    (member : block ∈ (before.openBlock name line).blocks) :
    block ∈ before.blocks ∨
      block.1 = before.tree.nodes.length ∧ Content.block name = .block block.2 := by
  rcases List.mem_cons.1 member with rfl | outer
  · exact .inr ⟨rfl, rfl⟩
  · exact .inl outer

/-- An event adds one node at most. It is a text just if the event is a text that is accepted while no
declaration is open. -/
theorem exists_adds (event : Event) (before : Assembly) :
    ∃ made, before.Adds made (Receipt.ofEvent event before).after ∧
      made.bind textOf = (Receipt.ofEvent event before).text? := by
  rcases received : handler.receive event before with ⟨cause | answer, after⟩
  · obtain rfl := keeps_receive event before cause after received
    have refused : Receipt.ofEvent event after = ⟨after, event, .error cause, after⟩ := by
      rw [Receipt.ofEvent, received]
    rw [refused]
    refine ⟨none, .nothing rfl (List.Subset.refl _), ?_⟩
    cases event <;> rfl
  have accepted : Receipt.ofEvent event before = ⟨before, event, .ok answer, after⟩ := by
    rw [Receipt.ofEvent, received]
  rw [accepted]
  cases event with
  | text content line =>
    obtain ⟨_, _, writes, same⟩ := Attempt.run_bind_eq_ok_iff.1 received
    cases same
    rcases onText_eq_ok writes with ⟨idle, rfl⟩ | ⟨busy, tree, blocks⟩
    · refine ⟨some (.text content, line), .node rfl fun _ member => .inl member, ?_⟩
      exact (if_pos idle).symm
    · refine ⟨none, .nothing tree (blocks ▸ List.Subset.refl _), ?_⟩
      exact (if_neg busy).symm
  | closed name line => exact adds_onClose received
  | opened name attributes line selfClosing =>
    obtain ⟨_, middle, opens, closes⟩ := Attempt.run_bind_eq_ok_iff.1 received
    rcases onOpen_eq_ok opens with ⟨tree, blocks⟩ | ⟨idle, rfl⟩
    · cases selfClosing with
      | false =>
        cases closes
        exact ⟨none, .nothing tree (blocks ▸ List.Subset.refl _), rfl⟩
      | true =>
        obtain ⟨made, adds, plain⟩ := adds_onClose closes
        exact ⟨made, adds.of_eq tree blocks, plain⟩
    -- A block that has been opened is no declaration, so closing it creates nothing more.
    · refine ⟨some (.block name, line), ?_, rfl⟩
      cases selfClosing with
      | false =>
        cases closes
        exact .node rfl fun _ => mem_blocks_openBlock
      | true =>
        obtain ⟨inside, tree | ⟨busy, -⟩⟩ := onClose_eq_ok closes
        · exact .node tree fun _ member => mem_blocks_openBlock (inside member)
        · exact absurd idle busy

/-! ## What holds after events -/

theorem Adds.entries (adds : before.Adds made after) :
    after.tree.nodes.map Node.entry = before.tree.nodes.map Node.entry ++
      (made.map fun (content, line) => (before.insertionPoint, content, line)).toList := by
  cases adds with
  | nothing tree => simp [tree]
  | node tree =>
    rw [tree]
    exact Tree.entries_append ..

theorem created_ofEvent (adds : before.Adds made (Receipt.ofEvent event before).after) :
    (Receipt.ofEvent event before).created =
      (made.map fun (content, line) => (before.insertionPoint, content, line)).toList := by
  rw [Receipt.created, List.map_drop, adds.entries]
  exact List.drop_left' (List.length_map _)

theorem length_created_le (event : Event) (before : Assembly) :
    (Receipt.ofEvent event before).created.length ≤ 1 := by
  obtain ⟨made, adds, -⟩ := exists_adds event before
  rw [created_ofEvent adds]
  exact Option.length_toList_le

theorem exists_of_mem_receipts {events : List Event} {receipt : Receipt}
    (member : receipt ∈ receipts events before) :
    ∃ event before, receipt = Receipt.ofEvent event before := by
  induction events generalizing before with
  | nil => cases member
  | cons event rest ih =>
    rcases List.mem_cons.1 member with rfl | later
    · exact ⟨event, before, rfl⟩
    · exact ih later

/-- The nodes are those that the events have created, in this order, and those that were there. -/
theorem entries_answers (events : List Event) (before : Assembly) :
    (answers events before).2.tree.nodes.map Node.entry =
      before.tree.nodes.map Node.entry ++ (receipts events before).flatMap Receipt.created := by
  induction events generalizing before with
  | nil => exact (List.append_nil _).symm
  | cons event rest ih =>
    obtain ⟨made, adds, -⟩ := exists_adds event before
    have further := ih (Receipt.ofEvent event before).after
    rw [adds.entries, ← created_ofEvent adds, List.append_assoc] at further
    exact further

/-- Whatever becomes of an event, the nodes stay in order. -/
theorem ordered_ofEvent (ordered : before.Ordered) (event : Event) :
    (Receipt.ofEvent event before).after.Ordered := by
  show (handler.receive event before).2.Ordered
  rcases received : handler.receive event before with ⟨cause | answer, after⟩
  · rw [keeps_receive event before cause after received]
    exact ordered
  · exact (sketch_of_receive List.singleton ordered received).1

theorem ordered_answers (ordered : before.Ordered) (events : List Event) :
    (answers events before).2.Ordered := by
  induction events generalizing before with
  | nil => exact ordered
  | cons event rest ih => exact ih (ordered_ofEvent ordered event)

/-- The open blocks are nodes of the tree, with their names. -/
def Named (assembly : Assembly) : Prop :=
  ∀ block ∈ assembly.blocks, assembly.tree.content? block.1 = some (.block block.2)

theorem named_empty : empty.Named := fun _ member => absurd member List.not_mem_nil

theorem Adds.named (adds : before.Adds made after) (named : before.Named) : after.Named := by
  intro block member
  cases adds with
  | nothing tree blocks => exact tree ▸ named block (blocks member)
  | node tree blocks =>
    rw [tree]
    rcases blocks block member with old | ⟨new, rfl⟩
    · exact Tree.content?_append_of_some (named block old)
    · exact (Tree.content?_append ..).trans (if_pos new)

theorem named_answers (named : before.Named) (events : List Event) :
    (answers events before).2.Named := by
  induction events generalizing before with
  | nil => exact named
  | cons event rest ih =>
    obtain ⟨made, adds, -⟩ := exists_adds event before
    exact ih (adds.named named)

/-- The texts among what an event creates. -/
theorem filterMap_created (event : Event) (before : Assembly) :
    (Receipt.ofEvent event before).created.filterMap (fun entry => textOf entry.2) =
      (Receipt.ofEvent event before).text?.toList := by
  obtain ⟨made, adds, texts⟩ := exists_adds event before
  rw [created_ofEvent adds, ← texts]
  rcases made with _ | ⟨content | condition | declared, line⟩ <;> rfl

/-- What holds of an assembly that has received events with these receipts. -/
structure DocumentOrder (assembly : Assembly) (receipts : List Receipt) : Prop where
  /-- A walk comes by all nodes of the tree, each once, in the order of their numbers. -/
  order : assembly.tree.walked = assembly.tree.nodes.zipIdx
  /-- This is the order in which they were created, and they have been left as they were. -/
  created : (assembly.tree.walked.map fun call => call.1.entry) =
    receipts.flatMap Receipt.created
  oneByOne : ∀ receipt ∈ receipts, receipt.created.length ≤ 1
  /-- The insertion point is the innermost open block, and those around it are its ancestors. -/
  ancestors : assembly.tree.Upward assembly.insertionPoint (assembly.blocks.map Prod.fst)
  /-- Each of them is the last child of the one around it. -/
  lastChildren : ∀ inner id outer, assembly.blocks.map Prod.fst = inner ++ id :: outer →
    (assembly.tree.children outer.head?).getLast? = some id
  named : assembly.Named
  /-- The texts that the walk comes by. -/
  texts : (assembly.tree.walked.filterMap fun call => call.1.text?) =
    receipts.filterMap Receipt.text?

/-- After any events, whether or not they were accepted, a walk over the tree comes by the nodes in the
order of their creation, the open blocks are the ancestors of the insertion point at the end of the
tree, and the texts are those that were accepted while no declaration was open. -/
theorem answers_documentOrder (events : List Event) :
    DocumentOrder (answers events empty).2 (receipts events empty) := by
  obtain ⟨lists, listed, inOrder, last⟩ := ordered_answers ordered_empty events
  have order := Tree.walked_eq inOrder
  have created : ((answers events empty).2.tree.walked.map fun call => call.1.entry) =
      (receipts events empty).flatMap Receipt.created := by
    calc (answers events empty).2.tree.walked.map (fun call => call.1.entry)
        = ((answers events empty).2.tree.nodes.zipIdx.map Prod.fst).map Node.entry := by
          rw [order, List.map_map]
          rfl
      _ = (answers events empty).2.tree.nodes.map Node.entry := by rw [List.zipIdx_map_fst]
      _ = (receipts events empty).flatMap Receipt.created := entries_answers events empty
  constructor
  case order => exact order
  case created => exact created
  case oneByOne =>
    intro receipt member
    obtain ⟨event, before, rfl⟩ := exists_of_mem_receipts member
    exact length_created_le event before
  case ancestors =>
    have upward := last.upward listed .top
    rwa [Tree.pathEnd_reverse, List.reverse_reverse, List.append_nil, List.head?_map] at upward
  case lastChildren =>
    intro inner id outer split
    rw [split, List.reverse_append, List.reverse_cons, List.append_assoc] at last
    have further := last.getLast?_of_append
    rwa [Tree.pathEnd_reverse, ← listed.children_eq] at further
  case named => exact named_answers named_empty events
  case texts =>
    calc (answers events empty).2.tree.walked.filterMap (fun call => call.1.text?)
        = ((answers events empty).2.tree.walked.map fun call => call.1.entry).filterMap
            fun entry => textOf entry.2 := by
          rw [List.filterMap_map]
          rfl
      _ = (receipts events empty).flatMap fun receipt =>
            receipt.created.filterMap fun entry => textOf entry.2 := by
          rw [created, List.filterMap_flatMap]
      _ = (receipts events empty).flatMap fun receipt => receipt.text?.toList := by
          refine List.flatMap_congr fun receipt member => ?_
          obtain ⟨event, before, rfl⟩ := exists_of_mem_receipts member
          exact filterMap_created event before
      _ = (receipts events empty).filterMap Receipt.text? :=
          (List.filterMap_eq_flatMap_toList ..).symm

/-- A property in a configuration in a block. A text in the configuration, a block that is not open and
an `include` element without a path are refused, and another `include` element is not. -/
def exMixed : List Event :=
  [.text "a" 1, .opened "b" .empty 1 false, .opened "config" (.ofList [("name", "c")]) 2 false,
    .text "no" 2, .opened "property" (.ofList [("name", "p")]) 3 true, .closed "config" 4,
    .text "x" 4, .closed "e" 4, .opened "include" .empty 5 true,
    .opened "include" (.ofList [("path", "f")]) 5 true, .opened "d" .empty 6 false, .text "y" 6]

/-- The property is created before the configuration, and two blocks are still open. -/
example : (answers exMixed empty).2.tree.walked.map (fun call => call.1.entry) =
    [(none, .text "a", 1), (none, .block "b", 1),
      (some 1, .declaration (.property "p" "" "" (some "c") true), 3),
      (some 1, .declaration (.config "c" "" false), 2), (some 1, .text "x", 4),
      (some 1, .block "d", 6), (some 5, .text "y", 6)] ∧
    (answers exMixed empty).2.blocks = [(5, "d"), (1, "b")] := by
  decide +kernel

end Assembly

end Document

end ConfigTemplate
