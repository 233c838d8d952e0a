import ConfigTemplate.Proofs.Document.Comments
import ConfigTemplate.Proofs.Document.Nesting
import ConfigTemplate.Proofs.Markup.Pieces

/-!
# The lines of nodes

An assembly carries the lines of events along and never looks at them. So the pieces of a template
can be numbered, and assembled with their numbers in place of lines; each node then bears the number
of the piece with which it starts. Its line is the one that a reader takes for that piece.

Results:
1. `Assembly.relines_receive`: assembling on other lines comes to the same on other lines.
2. `Assembly.started_receive`: a node starts with a piece of its own kind.
3. `Tree.parse_lines`: the lines of the nodes of a template that includes no files.
-/

namespace ConfigTemplate.Document

open Markup

/-! ## Trees and assemblies on other lines -/

def Node.relined (f : Nat → Nat) (node : Node) : Node := { node with line := f node.line }

namespace Tree

/-- The tree with its nodes on other lines. -/
def relined (f : Nat → Nat) (tree : Tree) : Tree :=
  { tree with nodes := tree.nodes.map (Node.relined f) }

variable (f : Nat → Nat) (tree : Tree)

theorem node?_relined (id : NodeId) :
    (tree.relined f).node? id = (tree.node? id).map (Node.relined f) := List.getElem?_map

theorem length_relined : (tree.relined f).nodes.length = tree.nodes.length := List.length_map _

theorem lastChild_relined (parent : Option NodeId) :
    (tree.relined f).lastChild parent = tree.lastChild parent := by
  rcases parent with _ | parent
  · rfl
  · simp only [lastChild, node?_relined]
    cases tree.node? parent <;> rfl

theorem relined_update (id : NodeId) {change : Node → Node}
    (keeps : ∀ node, (change node).relined f = change (node.relined f)) :
    (tree.update id change).relined f = (tree.relined f).update id change := by
  simp only [relined, update, mk.injEq, and_true]
  refine List.ext_getElem? fun other => ?_
  simp only [List.getElem?_map, List.getElem?_modify]
  cases tree.nodes[other]? with
  | none => rfl
  | some node => by_cases same : id = other <;> simp [same, keeps]

theorem relined_setLastChild (parent child : Option NodeId) :
    (tree.setLastChild parent child).relined f = (tree.relined f).setLastChild parent child := by
  rcases parent with _ | parent
  · rfl
  · exact relined_update f tree parent fun _ => rfl

theorem relined_linkNext (parent prev next : Option NodeId) :
    (tree.linkNext parent prev next).relined f = (tree.relined f).linkNext parent prev next := by
  rcases prev with _ | prev
  · rcases parent with _ | parent
    · rfl
    · exact relined_update f tree parent fun _ => rfl
  · exact relined_update f tree prev fun _ => rfl

theorem append_relined (parent : Option NodeId) (content : Content) (line : Nat) :
    (tree.relined f).append parent content (f line) =
      ((tree.append parent content line).1, (tree.append parent content line).2.relined f) := by
  simp only [append, relined_setLastChild, relined_linkNext, length_relined, lastChild_relined]
  simp [relined, Node.relined]

end Tree

namespace Assembly

/-- The assembly with its nodes and its open declarations on other lines. -/
def relined (f : Nat → Nat) (assembly : Assembly) : Assembly :=
  { assembly with
    tree := assembly.tree.relined f
    declarations := assembly.declarations.map (OpenDeclaration.relined f) }

/-- Two steps come to the same, on other lines, or both fail. -/
inductive Relines (f : Nat → Nat) {β : Type} :
    Except ParseError β × Assembly → Except ParseError β × Assembly → Prop where
  | ok (answer : β) (after : Assembly) : Relines f (.ok answer, after) (.ok answer, after.relined f)
  | error (cause other : ParseError) (after later : Assembly) :
      Relines f (.error cause, after) (.error other, later)

variable {f : Nat → Nat} {assembly : Assembly}

theorem relines_bind {β γ : Type} {first other : HandlerM Assembly β}
    {second further : β → HandlerM Assembly γ} {state : Assembly}
    (begins : Relines f (first assembly) (other state))
    (continues : ∀ answer after, Relines f (second answer after) (further answer (after.relined f))) :
    Relines f ((first >>= second) assembly) ((other >>= further) state) := by
  rw [Attempt.run_bind, Attempt.run_bind]
  generalize first assembly = result, other state = again at begins
  cases begins with
  | ok answer after => exact continues answer after
  | error => exact .error ..

/-- Steps of an open declaration that come to the same, up to its line. -/
theorem relines_ofExcept {β γ δ : Type} {first : Except ParseError β} {other : Except ParseError γ}
    {image : β → γ} (same : first.toOption.map image = other.toOption)
    {second : β → HandlerM Assembly δ} {further : γ → HandlerM Assembly δ} {state : Assembly}
    (continues : ∀ value, Relines f (second value assembly) (further (image value) state)) :
    Relines f ((Attempt.ofExcept first >>= second) assembly)
      ((Attempt.ofExcept other >>= further) state) := by
  rw [Attempt.run_bind, Attempt.run_bind, Attempt.run_ofExcept, Attempt.run_ofExcept]
  cases first with
  | error =>
    cases other with
    | error => exact .error ..
    | ok => cases same
  | ok value =>
    cases other with
    | error => cases same
    | ok =>
      cases same
      exact continues value

theorem append_relined (f : Nat → Nat) (assembly : Assembly) (content : Content) (line : Nat) :
    (assembly.relined f).append content (f line) = (assembly.append content line).relined f := by
  simp only [append, relined, insertionPoint, Tree.append_relined]

theorem relines_onText (text : String) (line : Nat) :
    Relines f (onText text line assembly) (onText text (f line) (assembly.relined f)) := by
  obtain ⟨tree, blocks, declarations, pendingInclude⟩ := assembly
  cases declarations with
  | nil =>
    let assembly : Assembly := ⟨tree, blocks, [], pendingInclude⟩
    show Relines f (.ok (), assembly.append (.text text) line)
      (.ok (), (assembly.relined f).append (.text text) (f line))
    rw [append_relined]
    exact .ok ..
  | cons current outer =>
    exact relines_ofExcept (OpenDeclaration.addText_relined f current text line (f line))
      fun later => .ok () ⟨tree, blocks, later :: outer, pendingInclude⟩

theorem relines_openInclude (assembly : Assembly) (attributes : Attributes) (line : Nat) :
    Relines f (openInclude attributes line assembly)
      (openInclude attributes (f line) (assembly.relined f)) := by
  obtain ⟨tree, blocks, declarations, pendingInclude⟩ := assembly
  cases pendingInclude with
  | some path => exact .error ..
  | none =>
    rw [openInclude, openInclude, Attempt.run_get_bind, Attempt.run_get_bind]
    cases attributes.get? "path" with
    | none => exact .error ..
    | some path => exact .ok () ⟨tree, blocks, declarations, some path⟩

theorem openBlock_relined (f : Nat → Nat) (assembly : Assembly) (name : String) (line : Nat) :
    (assembly.relined f).openBlock name (f line) = (assembly.openBlock name line).relined f := by
  simp only [openBlock, relined, insertionPoint, Tree.append_relined]

theorem relines_onOpen (name : String) (attributes : Attributes) (line : Nat) :
    Relines f (onOpen name attributes line assembly)
      (onOpen name attributes (f line) (assembly.relined f)) := by
  obtain ⟨tree, blocks, declarations, pendingInclude⟩ := assembly
  cases declarations with
  | nil =>
    let assembly : Assembly := ⟨tree, blocks, [], pendingInclude⟩
    rw [onOpen, onOpen, Attempt.run_get_bind, Attempt.run_get_bind]
    dsimp only [relined, List.map_nil]
    cases Keyword.ofElement? name with
    | some keyword =>
      exact relines_ofExcept (OpenDeclaration.start_relined f keyword attributes line)
        fun started => .ok () ⟨tree, blocks, [started], pendingInclude⟩
    | none =>
      dsimp only
      split
      · exact relines_openInclude assembly attributes line
      · show Relines f (.ok (), assembly.openBlock name line)
          (.ok (), (assembly.relined f).openBlock name (f line))
        rw [openBlock_relined]
        exact .ok ..
  | cons current outer =>
    refine relines_ofExcept (OpenDeclaration.openInside_relined f current name attributes line)
      fun opened => ?_
    obtain ⟨later, inner⟩ := opened
    cases inner with
    | none => exact .ok () ⟨tree, blocks, later :: outer, pendingInclude⟩
    | some inner => exact .ok () ⟨tree, blocks, inner :: later :: outer, pendingInclude⟩

theorem relines_closeBlock (assembly : Assembly) (name : String) (line other : Nat) :
    Relines f (closeBlock name line assembly) (closeBlock name other (assembly.relined f)) := by
  obtain ⟨tree, blocks, declarations, pendingInclude⟩ := assembly
  cases blocks with
  | nil => exact .error ..
  | cons block outer =>
    rw [closeBlock, closeBlock, Attempt.run_get_bind, Attempt.run_get_bind]
    dsimp only [relined]
    split
    · exact .ok () ⟨tree, outer, declarations, pendingInclude⟩
    · exact .error ..

theorem relines_onClose (name : String) (line other : Nat) :
    Relines f (onClose name line assembly) (onClose name other (assembly.relined f)) := by
  obtain ⟨tree, blocks, declarations, pendingInclude⟩ := assembly
  cases declarations with
  | nil =>
    let assembly : Assembly := ⟨tree, blocks, [], pendingInclude⟩
    have closes : Relines f ((closeBlock name line >>= fun _ => pure (none : Option String)) assembly)
        ((closeBlock name other >>= fun _ => pure (none : Option String)) (assembly.relined f)) :=
      relines_bind (relines_closeBlock assembly name line other) fun _ after => .ok none after
    cases pendingInclude with
    | none => exact closes
    | some path =>
      rw [onClose, onClose, Attempt.run_get_bind, Attempt.run_get_bind]
      dsimp only [relined, List.map_nil]
      split
      · exact .ok (some path) ⟨tree, blocks, [], none⟩
      · exact closes
  | cons current outer =>
    refine relines_ofExcept (OpenDeclaration.closeInside_relined f current name line other)
      fun closed => ?_
    cases closed with
    | some later => exact .ok none ⟨tree, blocks, later :: outer, pendingInclude⟩
    | none =>
      let assembly : Assembly := ⟨tree, blocks, current :: outer, pendingInclude⟩
      have scope : (outer.map (OpenDeclaration.relined f)).head? >>= OpenDeclaration.scope? =
          outer.head? >>= OpenDeclaration.scope? := by cases outer <;> rfl
      let closed := Content.declaration (current.close (outer.head? >>= OpenDeclaration.scope?))
      have appended := append_relined f assembly closed current.line
      show Relines f (.ok none, { assembly.append closed current.line with declarations := outer })
        (.ok none, { (assembly.relined f).append (.declaration ((current.relined f).close
          ((outer.map (OpenDeclaration.relined f)).head? >>= OpenDeclaration.scope?))) (f current.line)
          with declarations := outer.map (OpenDeclaration.relined f) })
      rw [scope, OpenDeclaration.relined_close, appended]
      exact .ok none { assembly.append closed current.line with declarations := outer }

/-- The second event is the first on another line. For a closing element any line will do. -/
inductive EventRelines (f : Nat → Nat) : Event → Event → Prop where
  | text (content : String) (line : Nat) : EventRelines f (.text content line) (.text content (f line))
  | opened (name : String) (attributes : Attributes) (line : Nat) (selfClosing : Bool) :
      EventRelines f (.opened name attributes line selfClosing)
        (.opened name attributes (f line) selfClosing)
  | closed (name : String) (line other : Nat) :
      EventRelines f (.closed name line) (.closed name other)

/-- Assembling on other lines comes to the same on other lines. -/
theorem relines_receive {event other : Event} (same : EventRelines f event other) :
    Relines f (handler.receive event assembly) (handler.receive other (assembly.relined f)) := by
  cases same with
  | text content line => exact relines_bind (relines_onText content line) fun _ after => .ok none after
  | opened name attributes line selfClosing =>
    refine relines_bind (relines_onOpen name attributes line) fun _ after => ?_
    cases selfClosing with
    | true => exact relines_onClose name line (f line)
    | false => exact .ok none after
  | closed name line other => exact relines_onClose name line other

theorem relines_receiveAll {events others : List Event}
    (same : List.Forall₂ (EventRelines f) events others) :
    Relines f (receiveAll events assembly) (receiveAll others (assembly.relined f)) := by
  induction same generalizing assembly with
  | nil => exact .ok () assembly
  | cons first _ ih =>
    refine relines_bind (relines_bind (relines_receive first) fun _ after => .ok () after)
      fun _ after => ih

/-- An assembly that is finished on other lines is finished on its own. -/
theorem finish_relined {line : Nat} {tree : Tree}
    (finishes : (assembly.relined f).finish line = .ok tree) (other : Nat) :
    assembly.finish other = .ok assembly.tree ∧ tree = assembly.tree.relined f := by
  obtain ⟨built, blocks, declarations, pendingInclude⟩ := assembly
  rcases declarations with _ | ⟨current, outer⟩
  · rcases pendingInclude with _ | path
    · rcases blocks with _ | ⟨block, outer⟩
      · cases finishes
        exact ⟨rfl, rfl⟩
      · cases finishes
    · cases finishes
  · cases finishes

end Assembly

/-! ## The pieces that nodes start with -/

/-- The declaration is what the piece opens, but for its texts. -/
inductive OpenDeclaration.StartedBy : Matter → OpenDeclaration → Prop where
  | opening {keyword : Keyword} {attributes : List (String × String)} {line : Nat}
      {started : OpenDeclaration} (starts : start keyword (.ofList attributes) line = .ok started)
      (selfClosing : Bool) (description body : String) (inDescription : Bool) :
      StartedBy (.tag (.opening keyword.element attributes selfClosing))
        { started with description, body, inDescription }

/-- A node with this content starts with the piece. -/
inductive Content.StartsWith : Matter → Content → Prop where
  | text (characters : List Char) :
      StartsWith (.text characters) (.text (String.ofList characters))
  | block (name : String) (attributes : List (String × String)) (selfClosing : Bool) :
      StartsWith (.tag (.opening name attributes selfClosing)) (.block name)
  | declaration {matter : Matter} {current : OpenDeclaration} (started : current.StartedBy matter)
      (scope : Option String) : StartsWith matter (.declaration (current.close scope))

namespace OpenDeclaration

variable {matter : Matter} {current later : OpenDeclaration} {line : Nat}

theorem StartedBy.addText {text : String} (started : current.StartedBy matter)
    (adds : current.addText text line = .ok later) :
    later.StartedBy matter ∧ later.line = current.line := by
  cases started with
  | opening starts selfClosing description body inDescription =>
    unfold OpenDeclaration.addText at adds
    split at adds
    · cases adds
      exact ⟨.opening starts .., rfl⟩
    split at adds
    · cases adds
      exact ⟨.opening starts .., rfl⟩
    split at adds
    · cases adds
      exact ⟨.opening starts .., rfl⟩
    · cases adds

theorem StartedBy.describe (started : current.StartedBy matter) (inDescription : Bool) :
    StartedBy matter { current with inDescription } := by
  cases started with
  | opening starts => exact .opening starts ..

theorem line_of_start {keyword : Keyword} {attributes : Attributes}
    (starts : start keyword attributes line = .ok current) : current.line = line := by
  have same := start_relined (fun _ => line) keyword attributes line
  rw [starts] at same
  exact (congrArg OpenDeclaration.line (Option.some.inj same)).symm

theorem StartedBy.of_start {keyword : Keyword} {attributes : List (String × String)}
    (starts : start keyword (.ofList attributes) line = .ok current) (selfClosing : Bool) :
    current.StartedBy (.tag (.opening keyword.element attributes selfClosing)) :=
  .opening starts selfClosing current.description current.body current.inDescription

/-- The line of the declaration is the number of a piece that starts it. -/
def Begun (pieces : List Piece) (current : OpenDeclaration) : Prop :=
  ∃ piece, pieces[current.line]? = some piece ∧ current.StartedBy piece.matter

section Begun

variable {pieces : List Piece}

theorem Begun.of_start {keyword : Keyword} {attributes : List (String × String)}
    {selfClosing : Bool} {piece : Piece} (found : pieces[line]? = some piece)
    (tag : piece.matter = .tag (.opening keyword.element attributes selfClosing))
    (starts : start keyword (.ofList attributes) line = .ok current) : current.Begun pieces :=
  ⟨piece, line_of_start starts ▸ found, tag ▸ .of_start starts selfClosing⟩

theorem Begun.addText {text : String} (begun : current.Begun pieces)
    (adds : current.addText text line = .ok later) : later.Begun pieces := by
  obtain ⟨piece, found, started⟩ := begun
  obtain ⟨started, same⟩ := started.addText adds
  exact ⟨piece, same ▸ found, started⟩

theorem Begun.describe (begun : current.Begun pieces) (inDescription : Bool) :
    Begun pieces { current with inDescription } := by
  obtain ⟨piece, found, started⟩ := begun
  exact ⟨piece, found, started.describe inDescription⟩

end Begun

/-- Inside a declaration, its description is opened or a property. -/
theorem openInside_eq_ok {name : String} {attributes : Attributes} {inner : Option OpenDeclaration}
    (opens : current.openInside name attributes line = .ok (later, inner)) :
    (later = { current with inDescription := true } ∧ inner = none) ∨
      (later = current ∧ name = Keyword.property.element ∧
        ∃ started, start .property attributes line = .ok started ∧ inner = some started) := by
  unfold openInside at opens
  split at opens
  · cases opens
  split at opens
  · cases opens
    exact .inl ⟨rfl, rfl⟩
  split at opens
  · rename_i property
    cases starts : start .property attributes line with
    | error cause => simp [starts, bind, Except.bind] at opens
    | ok started =>
      simp only [starts, bind, Except.bind, pure, Except.pure, Except.ok.injEq, Prod.mk.injEq] at opens
      exact .inr ⟨opens.1.symm, property.2, started, rfl, opens.2.symm⟩
  · cases opens

theorem closeInside_eq_some {name : String}
    (closes : current.closeInside name line = .ok (some later)) :
    later = { current with inDescription := false } := by
  unfold closeInside at closes
  split at closes
  · cases closes
  split at closes <;> cases closes
  rfl

end OpenDeclaration

/-- Every node of a tree is the one that was appended last, or it was there before. -/
theorem Tree.node?_of_append {tree : Tree} {parent : Option NodeId} {content : Content} {line id : Nat}
    {node : Node} (found : (tree.append parent content line).2.node? id = some node) :
    (node.content = content ∧ node.line = line) ∨
      ∃ old, tree.node? id = some old ∧ node.content = old.content ∧ node.line = old.line := by
  rw [node?_append] at found
  obtain ⟨old, before, rfl⟩ := Option.map_eq_some_iff.1 found
  split at before
  · cases before
    exact .inl ⟨rfl, rfl⟩
  · exact .inr ⟨old, before, rfl, rfl⟩

namespace Assembly

/-- The lines of nodes and of open declarations are the numbers of pieces that start them. -/
structure Started (pieces : List Piece) (assembly : Assembly) : Prop where
  nodes : ∀ id node, assembly.tree.node? id = some node →
    ∃ piece, pieces[node.line]? = some piece ∧ node.content.StartsWith piece.matter
  declarations : ∀ current ∈ assembly.declarations, current.Begun pieces

variable {pieces : List Piece} {assembly after : Assembly} {piece : Piece} {number : Nat}

theorem started_empty (pieces : List Piece) : Started pieces empty := ⟨nofun, nofun⟩

theorem Started.append (started : Started pieces assembly) {content : Content}
    (found : pieces[number]? = some piece) (starts : content.StartsWith piece.matter) :
    Started pieces (assembly.append content number) where
  nodes id node known := by
    rcases Tree.node?_of_append known with ⟨same, line⟩ | ⟨old, before, same, line⟩
    · exact ⟨piece, line ▸ found, same ▸ starts⟩
    · obtain ⟨other, there, begins⟩ := started.nodes id old before
      exact ⟨other, line ▸ there, same ▸ begins⟩
  declarations := started.declarations

/-- Behind a step that leaves the tree alone, the open declarations are left to look at. -/
theorem Started.redeclare (started : Started pieces assembly) (tree : after.tree = assembly.tree)
    (declarations : ∀ current ∈ after.declarations, current.Begun pieces) :
    Started pieces after := ⟨tree ▸ started.nodes, declarations⟩

theorem Started.begun {current : OpenDeclaration} {outer : List OpenDeclaration}
    (started : Started pieces assembly) (isOpen : assembly.declarations = current :: outer) :
    current.Begun pieces ∧ ∀ other ∈ outer, other.Begun pieces :=
  List.forall_mem_cons.1 (isOpen ▸ started.declarations)

theorem started_onText {characters : List Char} (started : Started pieces assembly)
    (found : pieces[number]? = some piece) (text : piece.matter = .text characters)
    (received : onText (String.ofList characters) number assembly = (.ok (), after)) :
    Started pieces after := by
  rw [onText, Attempt.run_get_bind] at received
  rcases isOpen : assembly.declarations with _ | ⟨current, outer⟩ <;> simp only [isOpen] at received
  · cases received
    exact started.append found (text ▸ .text characters)
  · obtain ⟨later, adds, received⟩ := Attempt.run_ofExcept_bind_eq_ok_iff.1 received
    cases received
    obtain ⟨begun, others⟩ := started.begun isOpen
    exact started.redeclare rfl (List.forall_mem_cons.2 ⟨begun.addText adds, others⟩)

theorem started_onOpen {name : String} {attributes : List (String × String)} {selfClosing : Bool}
    (started : Started pieces assembly) (found : pieces[number]? = some piece)
    (tag : piece.matter = .tag (.opening name attributes selfClosing))
    (received : onOpen name (.ofList attributes) number assembly = (.ok (), after)) :
    Started pieces after := by
  rw [onOpen, Attempt.run_get_bind] at received
  rcases isOpen : assembly.declarations with _ | ⟨current, outer⟩ <;> simp only [isOpen] at received
  · rcases kind : Keyword.ofElement? name with _ | keyword <;> simp only [kind] at received
    · split at received
      · rw [openInclude, Attempt.run_get_bind] at received
        split at received
        · cases received
        split at received <;> cases received
        exact started.redeclare rfl started.declarations
      · cases received
        have starts : (Content.block name).StartsWith piece.matter := tag ▸ .block ..
        have appended := started.append found starts
        exact ⟨appended.nodes, appended.declarations⟩
    · obtain ⟨current, starts, received⟩ := Attempt.run_ofExcept_bind_eq_ok_iff.1 received
      cases received
      obtain rfl := Keyword.element_of_ofElement? kind
      have begun : current.Begun pieces := .of_start found tag starts
      exact started.redeclare rfl (List.forall_mem_singleton.2 begun)
  · obtain ⟨⟨later, inner⟩, opens, received⟩ := Attempt.run_ofExcept_bind_eq_ok_iff.1 received
    cases received
    obtain ⟨begun, others⟩ := started.begun isOpen
    rcases OpenDeclaration.openInside_eq_ok opens with ⟨rfl, rfl⟩ | ⟨rfl, rfl, inner, starts, rfl⟩
    · exact started.redeclare rfl (List.forall_mem_cons.2 ⟨begun.describe true, others⟩)
    · have within : inner.Begun pieces := .of_start found tag starts
      exact started.redeclare rfl
        (List.forall_mem_cons.2 ⟨within, List.forall_mem_cons.2 ⟨begun, others⟩⟩)

theorem started_closeBlock {name : String} {line : Nat} (started : Started pieces assembly)
    (received : closeBlock name line assembly = (.ok (), after)) : Started pieces after := by
  rw [closeBlock, Attempt.run_get_bind] at received
  rcases opened : assembly.blocks with _ | ⟨block, outer⟩ <;> simp only [opened] at received
  · cases received
  · split at received <;> cases received
    exact started.redeclare rfl started.declarations

theorem started_onClose {name : String} {line : Nat} {answer : Option String}
    (started : Started pieces assembly)
    (received : onClose name line assembly = (.ok answer, after)) : Started pieces after := by
  rw [onClose, Attempt.run_get_bind] at received
  rcases isOpen : assembly.declarations with _ | ⟨current, outer⟩ <;> simp only [isOpen] at received
  · rcases pending : assembly.pendingInclude with _ | path <;> simp only [pending] at received
    · obtain ⟨_, _, closes, same⟩ := Attempt.run_bind_eq_ok_iff.1 received
      cases same
      exact started_closeBlock started closes
    · split at received
      · cases received
        exact started.redeclare rfl (by simp)
      · obtain ⟨_, _, closes, same⟩ := Attempt.run_bind_eq_ok_iff.1 received
        cases same
        exact started_closeBlock started closes
  · obtain ⟨closed, closes, received⟩ := Attempt.run_ofExcept_bind_eq_ok_iff.1 received
    obtain ⟨begun, others⟩ := started.begun isOpen
    cases closed with
    | some later =>
      cases received
      obtain rfl := OpenDeclaration.closeInside_eq_some closes
      exact started.redeclare rfl (List.forall_mem_cons.2 ⟨begun.describe false, others⟩)
    | none =>
      cases received
      obtain ⟨piece, there, opened⟩ := begun
      have appended := started.append there
        (.declaration opened (outer.head? >>= OpenDeclaration.scope?))
      exact ⟨appended.nodes, others⟩

/-- A piece that is received starts what comes of it. -/
theorem started_receive {answer : Option String} (started : Started pieces assembly)
    (found : pieces[number]? = some piece)
    (received : handler.receive (piece.matter.event number) assembly = (.ok answer, after)) :
    Started pieces after := by
  rcases matter : piece.matter with characters | tag
  · rw [matter] at received
    obtain ⟨_, _, writes, same⟩ := Attempt.run_bind_eq_ok_iff.1 received
    cases same
    exact started_onText started found matter writes
  · rw [matter] at received
    cases tag with
    | closing name => exact started_onClose started received
    | opening name attributes selfClosing =>
      obtain ⟨_, middle, opens, closes⟩ := Attempt.run_bind_eq_ok_iff.1 received
      have between := started_onOpen started found matter opens
      cases selfClosing with
      | true => exact started_onClose between closes
      | false =>
        cases closes
        exact between

/-! ## Numbers in place of lines -/

/-- The events of numbered pieces, with the numbers in place of lines. -/
def numbered (pieces : List (Piece × Nat)) : List Event :=
  pieces.map fun (piece, number) => piece.matter.event number

theorem started_receiveAll {pairs : List (Piece × Nat)}
    (known : ∀ pair ∈ pairs, pieces[pair.2]? = some pair.1) (started : Started pieces assembly)
    (received : receiveAll (numbered pairs) assembly = (.ok (), after)) : Started pieces after := by
  induction pairs generalizing assembly with
  | nil =>
    cases received
    exact started
  | cons first others ih =>
    obtain ⟨found, known⟩ := List.forall_mem_cons.1 known
    obtain ⟨_, middle, receives, further⟩ := Attempt.run_bind_eq_ok_iff.1 received
    obtain ⟨answer, _, accepted, same⟩ := Attempt.run_bind_eq_ok_iff.1 receives
    cases same
    exact ih known (started_receive started found accepted) further

/-- The line of the piece with a number. -/
def lineOf (pieces : List Piece) (number : Nat) : Nat := (pieces[number]?.map Piece.line).getD 0

theorem lineOf_eq (found : pieces[number]? = some piece) : lineOf pieces number = piece.line := by
  simp [lineOf, found]

theorem EventRelines.of_makes {event : Event} (found : pieces[number]? = some piece)
    (makes : piece.Makes event) :
    EventRelines (lineOf pieces) (piece.matter.event number) event := by
  have same := lineOf_eq found
  obtain ⟨line, rfl, starts⟩ := makes
  rcases matter : piece.matter with characters | tag
  · rw [starts (by rw [matter]; rfl), ← same]
    exact .text ..
  · cases tag with
    | opening name attributes selfClosing =>
      rw [starts (by rw [matter]; rfl), ← same]
      exact .opened ..
    | closing name => exact .closed ..

theorem relines_numbered {pairs : List (Piece × Nat)} {events : List Event}
    (known : ∀ pair ∈ pairs, pieces[pair.2]? = some pair.1)
    (make : List.Forall₂ (fun pair event => Piece.Makes pair.1 event) pairs events) :
    List.Forall₂ (EventRelines (lineOf pieces)) (numbered pairs) events := by
  induction make with
  | nil => exact .nil
  | cons makes _ ih =>
    obtain ⟨found, known⟩ := List.forall_mem_cons.1 known
    exact .cons (.of_makes found makes) (ih known)

theorem receiveAll_cons {event : Event} {events : List Event} {answer : Option String}
    {middle : Assembly} (received : handler.receive event assembly = (.ok answer, middle))
    (further : receiveAll events middle = (.ok (), after)) :
    receiveAll (event :: events) assembly = (.ok (), after) :=
  Attempt.run_bind_eq_ok_iff.2
    ⟨(), middle, Attempt.run_bind_eq_ok_iff.2 ⟨answer, middle, received, rfl⟩, further⟩

end Assembly

/-! ## Templates -/

section Parsing

variable {store : Store} {text root : String} {noted before rest : List Char} {pieces : List Piece}
  {r last : Reader} {assembly after : Assembly}

/-- Parsing a text comes to receiving the events of its pieces. -/
theorem receiveAll_of_parse (cut : CutInto noted before rest pieces)
    (arrived : r.Arrived text.toList root noted before rest) (ordered : assembly.Ordered)
    (idle : assembly.pendingInclude = none)
    (parses : r.parse store Assembly.handler assembly = (.ok (), last, after)) :
    ∃ events, List.Forall₂ Piece.Makes pieces events ∧
      Assembly.receiveAll events assembly = (.ok (), after) := by
  induction cut generalizing r assembly with
  | nil noted before =>
    obtain ⟨ended, reads⟩ := arrived.meets.nextEvent_end
    rw [Reader.parse_of_end reads] at parses
    cases parses
    exact ⟨[], .nil, rfl⟩
  | text some_ plain ends _ ih =>
    obtain ⟨middle, reads, behind⟩ := arrived.nextEvent_text some_ plain ends
    obtain ⟨answer, later, received, ordered, sketched⟩ := exists_answer ordered reads parses
    obtain ⟨rfl, -, kept⟩ := Sketch.receive_text sketched
    rw [Reader.parse_of_event reads received] at parses
    obtain ⟨events, make, receives⟩ := ih behind ordered (kept.trans idle) parses
    exact ⟨_, .cons ⟨_, rfl, fun _ => rfl⟩ make, Assembly.receiveAll_cons received receives⟩
  | comment upToEnd behind _ ih => exact ih (arrived.comment upToEnd behind) ordered idle parses
  | tag blank visible spelled ordinary _ ih =>
    obtain ⟨line, middle, reads, starts, behind⟩ := arrived.nextEvent_tag blank visible spelled
    obtain ⟨answer, later, received, ordered, sketched⟩ := exists_answer ordered reads parses
    obtain ⟨rfl, kept⟩ := Sketch.receive_ordinary ordinary idle sketched
    rw [Reader.parse_of_event reads received] at parses
    obtain ⟨events, make, receives⟩ := ih behind ordered kept parses
    exact ⟨_, .cons ⟨line, rfl, starts⟩ make, Assembly.receiveAll_cons received receives⟩

end Parsing

/-- The tree of the pieces of a template, with their numbers in place of lines. -/
def Tree.ofPieces (pieces : List Piece) : Except ParseError Tree :=
  Assembly.assemble (Assembly.numbered pieces.zipIdx) 0

/-- Events that come from pieces make the tree of these pieces, on their lines. -/
theorem Tree.exists_ofPieces {pieces : List Piece} {events : List Event} {after : Assembly} {line : Nat}
    {tree : Tree} (make : List.Forall₂ Piece.Makes pieces events)
    (received : Assembly.receiveAll events .empty = (.ok (), after))
    (finishes : after.finish line = .ok tree) :
    ∃ origins, ofPieces pieces = .ok origins ∧ tree = origins.relined (Assembly.lineOf pieces) ∧
      ∀ id origin, origins.node? id = some origin → ∃ piece, pieces[origin.line]? = some piece ∧
        origin.content.StartsWith piece.matter := by
  have known : ∀ pair ∈ pieces.zipIdx, pieces[pair.2]? = some pair.1 := fun pair =>
    List.mem_zipIdx_iff_getElem?.1
  have paired : List.Forall₂ (fun pair event => Piece.Makes pair.1 event) pieces.zipIdx events := by
    rw [← List.forall₂_map_left_iff, List.zipIdx_map_fst]
    exact make
  have relines : Assembly.Relines (Assembly.lineOf pieces)
      (Assembly.receiveAll (Assembly.numbered pieces.zipIdx) .empty)
      (Assembly.receiveAll events .empty) :=
    Assembly.relines_receiveAll (Assembly.relines_numbered known paired)
  rw [received] at relines
  generalize outcome : Assembly.receiveAll (Assembly.numbered pieces.zipIdx) .empty = result at relines
  cases relines with
  | ok _ numbers =>
    obtain ⟨finished, same⟩ := Assembly.finish_relined finishes 0
    have started := Assembly.started_receiveAll known (Assembly.started_empty pieces) outcome
    have assembles : ofPieces pieces = .ok numbers.tree := by
      rw [ofPieces, Assembly.assemble, outcome]
      exact finished
    exact ⟨numbers.tree, assembles, same, started.nodes⟩

/-- A template that includes no files can be cut into pieces. Numbering these instead of counting lines
gives the same nodes, each with the number of the piece with which it starts. Its line is that of the
place where the name of its tag starts, or for a text, where the piece before it ends. So it is that of
the piece itself, if no line break is passed over in between. -/
theorem Tree.parse_lines {store : Store} {text directory : String} {tree : Tree}
    (parses : Tree.parse store text directory = .ok tree) (selfContained : ¬ OpensInclude text.toList) :
    (∃ pieces, CutInto [] [] text.toList pieces) ∧
      ∀ pieces, CutInto [] [] text.toList pieces →
        ∃ origins, ofPieces pieces = .ok origins ∧
          ∀ id node, tree.node? id = some node → ∃ origin piece, origins.node? id = some origin ∧
            pieces[origin.line]? = some piece ∧ node.content.StartsWith piece.matter ∧
            node.line = 1 + lineBreaks piece.noted ∧
            (piece.Close → node.line = 1 + lineBreaks piece.before) := by
  unfold Tree.parse at parses
  split at parses
  · cases parses
  rename_i last after parsed
  have arrived := Reader.arrived_ofText text directory
  constructor
  · rcases exists_uncommented arrived.meets Assembly.ordered_empty rfl parsed with
      ⟨out, uncommented⟩ | opens
    · exact uncommented.exists_cutInto List.not_mem_nil [] []
    · exact absurd opens selfContained
  intro pieces cut
  obtain ⟨events, make, received⟩ :=
    receiveAll_of_parse cut arrived Assembly.ordered_empty rfl parsed
  obtain ⟨origins, assembles, rfl, starts⟩ := exists_ofPieces make received parses
  refine ⟨origins, assembles, fun id node known => ?_⟩
  rw [node?_relined] at known
  obtain ⟨origin, there, rfl⟩ := Option.map_eq_some_iff.1 known
  obtain ⟨piece, found, begins⟩ := starts id origin there
  have line : (origin.relined (Assembly.lineOf pieces)).line = piece.line := Assembly.lineOf_eq found
  exact ⟨origin, piece, there, found, begins, line, fun close => line.trans (piece.line_of_close close)⟩

/-- Text over two lines, an element on the second, and more text behind it. -/
def exLines : String := "a\n<b/>c"

def exLinesPieces : List Piece :=
  [⟨.text ['a', '\n'], [], []⟩,
    ⟨.tag (.opening "b" [] true), "a\n".toList, "a\n<".toList⟩,
    ⟨.text ['c'], "a\n<b/>".toList, "a\n<b/>".toList⟩]

theorem exLines_cutInto : CutInto [] [] exLines.toList exLinesPieces := by
  have written : (Tag.opening "b" [] true).Written "<b/>".toList :=
    Tag.written_render ⟨by decide, nofun⟩
  have behind : CutInto "a\n<b/>".toList "a\n<b/>".toList (['c'] ++ []) [exLinesPieces[2]] :=
    .text (by decide) (by decide) nofun (.nil _ _)
  have block : CutInto "a\n".toList "a\n".toList ('<' :: ([] ++ 'b' :: ['/', '>']) ++ ['c'])
      exLinesPieces.tail :=
    .tag nofun (by decide) written rfl behind
  have whole : CutInto [] [] (['a', '\n'] ++ ('<' :: ([] ++ 'b' :: ['/', '>']) ++ ['c']))
      exLinesPieces :=
    .text (by decide) (by decide) (by simp) block
  exact whole

/-- The contents of the nodes of a template with their lines. -/
def exLined (text : String) : Except ParseError (List (Content × Nat)) :=
  (Tree.parse ⟨[], []⟩ text "").map fun tree => tree.nodes.map fun node => (node.content, node.line)

theorem exLines_lines :
    (CutInto [] [] exLines.toList exLinesPieces ∧ ∀ piece ∈ exLinesPieces, piece.Close) ∧
      exLined exLines = .ok [(.text "a\n", 1), (.block "b", 2), (.text "c", 2)] ∧
      ¬ OpensInclude exLines.toList ∧
      ∃ tree origins : Tree, Tree.parse ⟨[], []⟩ exLines "" = .ok tree ∧
        Tree.ofPieces exLinesPieces = .ok origins ∧
        ∀ id node, tree.node? id = some node → ∃ origin piece, origins.node? id = some origin ∧
          exLinesPieces[origin.line]? = some piece ∧ node.content.StartsWith piece.matter ∧
          node.line = 1 + lineBreaks piece.before := by
  have close : ∀ piece ∈ exLinesPieces, piece.Close := by
    simp only [exLinesPieces, List.forall_mem_cons, List.not_mem_nil, false_implies, implies_true,
      and_true]
    exact ⟨⟨[], .inl rfl, nofun⟩, ⟨['<'], .inr rfl, List.forall_mem_singleton.2 rfl⟩,
      ⟨[], .inl rfl, nofun⟩⟩
  have lined : exLined exLines = .ok [(.text "a\n", 1), (.block "b", 2), (.text "c", 2)] := by
    decide +kernel
  have selfContained : ¬ OpensInclude exLines.toList := exLines_cutInto.not_opensInclude
  refine ⟨⟨exLines_cutInto, close⟩, lined, selfContained, ?_⟩
  cases parses : Tree.parse ⟨[], []⟩ exLines "" with
  | error cause =>
    rw [exLined, parses] at lined
    cases lined
  | ok tree =>
    obtain ⟨origins, made, lines⟩ :=
      (Tree.parse_lines parses selfContained).2 exLinesPieces exLines_cutInto
    refine ⟨tree, origins, rfl, made, fun id node known => ?_⟩
    obtain ⟨origin, piece, there, found, starts, -, line⟩ := lines id node known
    exact ⟨origin, piece, there, found, starts, line (close piece (List.mem_of_getElem? found))⟩

/-- A comment that takes a line break along, and text behind it. -/
def exHeaded : String := "<!-- -->\nx"

/-- A tag whose name is on the line behind its `<`. -/
def exSplit : String := "<\nb/>"

/-- The line of a node need not be the one on which its text, or the `<` of its tag, stands. -/
theorem exHeaded_line :
    (¬ OpensInclude exHeaded.toList ∧
      CutInto [] [] exHeaded.toList [⟨.text ['x'], "<!-- -->\n".toList, []⟩] ∧
      exLined exHeaded = .ok [(.text "x", 1)] ∧ 1 + lineBreaks "<!-- -->\n".toList = 2) ∧
    ¬ OpensInclude exSplit.toList ∧
      CutInto [] [] exSplit.toList [⟨.tag (.opening "b" [] true), [], "<\n".toList⟩] ∧
      exLined exSplit = .ok [(.block "b", 2)] ∧ 1 + lineBreaks [] = 1 := by
  have upToEnd : CommentBody [' '] := by unfold CommentBody; decide
  have text : CutInto [] "<!-- -->\n".toList (['x'] ++ []) [⟨.text ['x'], "<!-- -->\n".toList, []⟩] :=
    .text (by decide) (by decide) nofun (.nil _ _)
  have gone : ['\n'] ++ behindComment ['\n', 'x'] = ['\n', 'x'] := by decide
  have headed : CutInto [] [] (commentStart ++ ([' '] ++ (commentEnd ++ ['\n', 'x'])))
      [⟨.text ['x'], "<!-- -->\n".toList, []⟩] := .comment upToEnd gone text
  have closing : Lexed ([] ++ ['>']) [.closeMarkup] := .close nofun
  have closes : Lexed ([] ++ (['/'] ++ ['>'])) [.slash, .closeMarkup] :=
    .token nofun .slash nofun closing
  have names : Spells ['b'] (.identifier "b") := .identifier (by decide) nofun
  have ends : ∀ name, Token.identifier "b" = .identifier name →
      ∀ c ∈ ['/', '>'].head?, ¬ Text.isWordPart c := by
    rintro _ _ _ ⟨⟩
    decide
  have body : Lexed (['\n'] ++ (['b'] ++ ['/', '>'])) [.identifier "b", .slash, .closeMarkup] :=
    .token (List.forall_mem_singleton.2 rfl) names ends closes
  have written : (Tag.opening "b" [] true).Written ['<', '\n', 'b', '/', '>'] := ⟨_, rfl, body⟩
  have split : CutInto [] [] ('<' :: (['\n'] ++ 'b' :: ['/', '>']) ++ [])
      [⟨.tag (.opening "b" [] true), [], "<\n".toList⟩] :=
    .tag (List.forall_mem_singleton.2 rfl) (by decide) written rfl (.nil _ _)
  exact ⟨⟨headed.not_opensInclude, headed, by decide +kernel, by decide⟩, split.not_opensInclude,
    split, by decide +kernel, by decide⟩

end ConfigTemplate.Document
