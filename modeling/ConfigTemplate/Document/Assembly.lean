import ConfigTemplate.Document.Tree
import ConfigTemplate.Markup.Handler

/-!
# Assembling a tree from events

An element whose name is that of a declaration makes one, `include` reads a file, and every other
element opens a block. Blocks nest, and new nodes go below the innermost open one. A declaration
gathers its text while it is open and becomes a node when it closes; inside of it only a description
can be opened, and a property inside a configuration.
-/

namespace ConfigTemplate.Document

open Markup (Attributes Fault Handler HandlerM ParseError)

/-! ## Open declarations -/

structure OpenDeclaration where
  keyword : Keyword
  name : Option String
  /-- Whether a configuration is selected by default, or a property can be overridden. -/
  flag : Bool
  description : String
  body : String
  /-- Whether the `description` element inside is open. -/
  inDescription : Bool
  /-- The line of the opening element. -/
  line : Nat
deriving DecidableEq, Repr

/-- Reads an attribute that is `yes` or `no`, by the first of several names that is present. -/
def yesOrNo (attributes : Attributes) (names : List String) (default : Bool) (line : Nat) :
    Except ParseError Bool :=
  match names.findSome? fun name => (attributes.get? name).map (name, ·) with
  | none => .ok default
  | some (name, value) =>
    if value = "yes" then .ok true
    else if value = "no" then .ok false
    else .error (.malformed line (.notYesOrNo name value))

namespace OpenDeclaration

/-- The declaration that an element opens. -/
def start (keyword : Keyword) (attributes : Attributes) (line : Nat) :
    Except ParseError OpenDeclaration := do
  let name := attributes.get? "name"
  if keyword.requiresName && name.isNone then
    throw (.malformed line (.missingNameAttribute keyword.element))
  let flag ← match keyword with
    | .config => yesOrNo attributes ["default"] false line
    | .property => yesOrNo attributes ["overrideable", "overridable"] true line
    | .project | .define | .require => pure false
  return ⟨keyword, name, flag, "", "", false, line⟩

/-- The innermost element that is open. -/
def openElement (current : OpenDeclaration) : String :=
  if current.inDescription then "description" else current.keyword.element

/-- Adds text to the description or to the body. -/
def addText (current : OpenDeclaration) (text : String) (line : Nat) :
    Except ParseError OpenDeclaration :=
  if current.inDescription then .ok { current with description := current.description ++ text }
  else if current.keyword.hasBody then .ok { current with body := current.body ++ text }
  else if Text.isAllWhiteSpace text then .ok current
  else .error (.malformed line (.contentInside current.keyword.element))

/-- Opens an element inside, and returns the declaration that the element makes, if any. -/
def openInside (current : OpenDeclaration) (name : String) (attributes : Attributes) (line : Nat) :
    Except ParseError (OpenDeclaration × Option OpenDeclaration) :=
  if current.inDescription then .error (.malformed line (.elementInside name "description"))
  else if name = "description" then .ok ({ current with inDescription := true }, none)
  else if current.keyword = .config ∧ name = Keyword.property.element then do
    return (current, some (← start .property attributes line))
  else .error (.malformed line (.elementInside name current.keyword.element))

/-- Closes an element. The answer is nothing when the declaration itself is closed. -/
def closeInside (current : OpenDeclaration) (name : String) (line : Nat) :
    Except ParseError (Option OpenDeclaration) :=
  if name ≠ current.openElement then
    .error (.malformed line (.mismatchedInside name current.openElement))
  else if current.inDescription then .ok (some { current with inDescription := false })
  else .ok none

/-- The declaration when it is closed inside the configuration `scope`, if inside any. -/
def close (current : OpenDeclaration) (scope : Option String) : Declaration :=
  let description := Text.trim current.description
  match current.keyword with
  | .project => .project current.name description
  | .config => .config (current.name.getD "") description current.flag
  | .define => .define current.name description current.body
  | .require => .require current.name description current.body
  | .property => .property (current.name.getD "") description current.body scope current.flag

/-- The name that a declaration inside has as its scope. -/
def scope? (current : OpenDeclaration) : Option String :=
  if current.keyword = .config then current.name else none

end OpenDeclaration

/-! ## Assemblies -/

/-- A tree that is being built. -/
structure Assembly where
  tree : Tree
  /-- The blocks that are open with their names, the innermost first. -/
  blocks : List (NodeId × String)
  /-- The declarations that are open, the innermost first. -/
  declarations : List OpenDeclaration
  /-- The path of the `include` element that is open. -/
  pendingInclude : Option String
deriving DecidableEq, Repr

namespace Assembly

def empty : Assembly := ⟨.empty, [], [], none⟩

/-- The node below which new nodes go. -/
def insertionPoint (assembly : Assembly) : Option NodeId := assembly.blocks.head?.map Prod.fst

/-- Appends a node at the insertion point. -/
def append (assembly : Assembly) (content : Content) (line : Nat) : Assembly :=
  { assembly with tree := (assembly.tree.append assembly.insertionPoint content line).2 }

def onText (text : String) (line : Nat) : HandlerM Assembly Unit := do
  let assembly ← get
  match assembly.declarations with
  | current :: outer =>
    let current ← Attempt.ofExcept (current.addText text line)
    set { assembly with declarations := current :: outer }
  | [] => set (assembly.append (.text text) line)

/-- Opens an `include` element. -/
def openInclude (attributes : Attributes) (line : Nat) : HandlerM Assembly Unit := do
  let assembly ← get
  if assembly.pendingInclude.isSome then throw (.malformed line .nestedInclude)
  match attributes.get? "path" with
  | some path => set { assembly with pendingInclude := some path }
  | none => throw (.malformed line .includeWithoutPath)

/-- Opens a block. -/
def openBlock (assembly : Assembly) (name : String) (line : Nat) : Assembly :=
  let (id, tree) := assembly.tree.append assembly.insertionPoint (.block name) line
  { assembly with tree, blocks := (id, name) :: assembly.blocks }

def onOpen (name : String) (attributes : Attributes) (line : Nat) : HandlerM Assembly Unit := do
  let assembly ← get
  match assembly.declarations with
  | current :: outer =>
    let (current, inner) ← Attempt.ofExcept (current.openInside name attributes line)
    set { assembly with declarations := inner.toList ++ current :: outer }
  | [] =>
    match Keyword.ofElement? name with
    | some keyword =>
      let started ← Attempt.ofExcept (OpenDeclaration.start keyword attributes line)
      set { assembly with declarations := [started] }
    | none =>
      if name = "include" then openInclude attributes line
      else set (assembly.openBlock name line)

/-- Closes the block with the given name, which must be the innermost open one. -/
def closeBlock (name : String) (line : Nat) : HandlerM Assembly Unit := do
  let assembly ← get
  match assembly.blocks with
  | (_, block) :: outer =>
    if block = name then set { assembly with blocks := outer }
    else throw (.malformed line (.mismatchedBlock name block))
  | [] => throw (.malformed line (.unexpectedClose name))

def onClose (name : String) (line : Nat) : HandlerM Assembly (Option String) := do
  let assembly ← get
  match assembly.declarations with
  | current :: outer =>
    match ← Attempt.ofExcept (current.closeInside name line) with
    | some current => set { assembly with declarations := current :: outer }
    -- The declaration itself is closed and becomes a node.
    | none =>
      let declaration := current.close (outer.head? >>= OpenDeclaration.scope?)
      set { assembly.append (.declaration declaration) current.line with declarations := outer }
    return none
  | [] =>
    match assembly.pendingInclude with
    | some path =>
      if name = "include" then
        set { assembly with pendingInclude := none }
        return some path
      else
        closeBlock name line
        return none
    | none =>
      closeBlock name line
      return none

/-- The handler that assembles a tree. -/
def handler : Handler Assembly := ⟨onText, onOpen, onClose⟩

/-- The tree, if nothing is open any more. -/
def finish (assembly : Assembly) (line : Nat) : Except ParseError Tree :=
  match assembly.declarations, assembly.pendingInclude, assembly.blocks with
  | current :: _, _, _ => .error (.unfinished line (.declaration current.openElement))
  | [], some _, _ => .error (.unfinished line (.declaration "include"))
  | [], none, (_, name) :: _ => .error (.unfinished line (.block name))
  | [], none, [] => .ok assembly.tree

end Assembly

end ConfigTemplate.Document
