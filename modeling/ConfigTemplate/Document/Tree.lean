import ConfigTemplate.Document.Declaration
import ConfigTemplate.Document.Forest
import ConfigTemplate.Text.Quoted

/-!
# Template trees

The nodes of a template tree are numbered in the order in which they were appended. Each is linked to
its parent, its neighbours and its first and last child; the nodes without a parent form the
top-level list. A node that is removed leaves its list but keeps its number, its parent and its
children. Links always lead to nodes with larger numbers, which bounds every walk by the number of
nodes.
-/

namespace ConfigTemplate.Document

inductive Content where
  /-- Text that is part of the output. -/
  | text (characters : String)
  /-- Nodes that are part of the output if the named condition holds. -/
  | block (condition : String)
  | declaration (declared : Declaration)
deriving DecidableEq, Repr

namespace Content

/-- Whether this is text of nothing but spaces, tabs and line breaks. -/
def isBlankText : Content → Bool
  | .text characters => characters.toList.all fun c => c == ' ' || c == '\t' || c == '\r' || c == '\n'
  | .block _ | .declaration _ => false

def isDeclaration : Content → Bool
  | .declaration _ => true
  | .text _ | .block _ => false

/-- One line that shows the content. -/
def summary : Content → String
  | .text characters => "text " ++ Text.quote characters
  | .block condition => "block " ++ condition
  | .declaration declared => declared.summary

end Content

/-- The number of a node. -/
abbrev NodeId := Nat

structure Node where
  content : Content
  /-- The line that was reached when the node was read. -/
  line : Nat
  parent : Option NodeId
  prev : Option NodeId
  next : Option NodeId
  firstChild : Option NodeId
  lastChild : Option NodeId
deriving DecidableEq, Repr

structure Tree where
  nodes : List Node
  /-- The first node of the top-level list. -/
  first : Option NodeId
  /-- The last node of the top-level list. -/
  last : Option NodeId
deriving DecidableEq, Repr

namespace Tree

def empty : Tree := ⟨[], none, none⟩

def node? (tree : Tree) (id : NodeId) : Option Node := tree.nodes[id]?

def isEmpty (tree : Tree) : Bool := tree.first.isNone

/-! ## Links -/

def next? (tree : Tree) (id : NodeId) : Option NodeId := tree.node? id >>= Node.next

def prev? (tree : Tree) (id : NodeId) : Option NodeId := tree.node? id >>= Node.prev

/-- The first node below a parent, or of the top-level list. -/
def firstChild (tree : Tree) : Option NodeId → Option NodeId
  | some parent => tree.node? parent >>= Node.firstChild
  | none => tree.first

/-- The last node below a parent, or of the top-level list. -/
def lastChild (tree : Tree) : Option NodeId → Option NodeId
  | some parent => tree.node? parent >>= Node.lastChild
  | none => tree.last

def update (tree : Tree) (id : NodeId) (change : Node → Node) : Tree :=
  { tree with nodes := tree.nodes.modify id change }

def setFirstChild (tree : Tree) (parent child : Option NodeId) : Tree :=
  match parent with
  | some parent => tree.update parent fun node => { node with firstChild := child }
  | none => { tree with first := child }

def setLastChild (tree : Tree) (parent child : Option NodeId) : Tree :=
  match parent with
  | some parent => tree.update parent fun node => { node with lastChild := child }
  | none => { tree with last := child }

/-- Makes `next` what follows `prev` below a parent. -/
def linkNext (tree : Tree) (parent prev next : Option NodeId) : Tree :=
  match prev with
  | some prev => tree.update prev fun node => { node with next }
  | none => tree.setFirstChild parent next

/-- Makes `prev` what precedes `next` below a parent. -/
def linkPrev (tree : Tree) (parent next prev : Option NodeId) : Tree :=
  match next with
  | some next => tree.update next fun node => { node with prev }
  | none => tree.setLastChild parent prev

/-! ## Changing a tree -/

/-- Appends a node to the nodes below a parent, or to the top-level list, and returns its number. -/
def append (tree : Tree) (parent : Option NodeId) (content : Content) (line : Nat) :
    NodeId × Tree :=
  let id := tree.nodes.length
  let prev := tree.lastChild parent
  let node : Node := ⟨content, line, parent, prev, none, none, none⟩
  (id, (({ tree with nodes := tree.nodes ++ [node] }).linkNext parent prev (some id)).setLastChild
    parent (some id))

/-- Takes a node out of its list. Its neighbours are linked to each other by the links that the node
has at that moment, and these are cleared. -/
def remove (tree : Tree) (id : NodeId) : Tree :=
  match tree.node? id with
  | none => tree
  | some node =>
    ((tree.linkNext node.parent node.prev node.next).linkPrev node.parent node.next node.prev).update
      id fun node => { node with prev := none, next := none }

/-! ## Walks -/

/-- The nodes from a given one to the end of its list; `room` bounds their number. -/
def siblingsFrom (tree : Tree) : Nat → Option NodeId → List NodeId
  | 0, _ | _, none => []
  | room + 1, some id => id :: tree.siblingsFrom room (tree.next? id)

/-- The nodes below a parent, or of the top-level list, in order. -/
def children (tree : Tree) (parent : Option NodeId) : List NodeId :=
  tree.siblingsFrom tree.nodes.length (tree.firstChild parent)

/-- The nodes from a given one to the end of its list, with all nodes below them; `room` bounds the
length of a path through them. -/
def forestFrom (tree : Tree) : Nat → Option NodeId → Forest NodeId
  | 0, _ | _, none => .nil
  | room + 1, some id =>
    .cons id (tree.forestFrom room (tree.firstChild (some id)))
      (tree.forestFrom room (tree.next? id))

/-- The nodes that can be reached from the top-level list. -/
def forest (tree : Tree) : Forest NodeId := tree.forestFrom tree.nodes.length tree.first

/-- Visits the nodes that can be reached in pre-order, and those below a node only if its visit says
so. -/
def visit {m : Type → Type} [Monad m] (tree : Tree) (visitor : NodeId → Node → m Bool) : m Unit :=
  tree.forest.visit fun id =>
    match tree.node? id with
    | some node => visitor id node
    | none => pure false

/-- The nodes that can be reached in pre-order, each with its depth. -/
def levels (tree : Tree) : List (Nat × Node) :=
  (tree.forest.levels 0).filterMap fun (depth, id) => (tree.node? id).map (depth, ·)

/-- A line for every node that can be reached, indented by its depth. -/
def outline (tree : Tree) : String :=
  String.join (tree.levels.map fun (depth, node) =>
    String.ofList (List.replicate (2 * depth) ' ') ++ node.content.summary ++ "\n")

end Tree

end ConfigTemplate.Document
