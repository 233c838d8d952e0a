import ConfigTemplate.Document.Template
import ConfigTemplate.Proofs.Document.Contents

/-!
# Trees of templates

What holds of every tree that comes from a template. Each accepted event keeps a few facts about the
tree and about what is open (`Assembly.Builds`), so they hold at the end.

Results:
1. `Reader.parse_keeps`: what every event keeps holds after parsing.
2. `Tree.parse_builds`: the tree of a template is a tidy forest: all its nodes can be reached, only
   blocks have nodes below them, and the owner of a property is declared.
-/

namespace ConfigTemplate

/-- What every event keeps holds after all events. -/
theorem Markup.Reader.parse_keeps {σ : Type} {store : Store} {handler : Markup.Handler σ}
    {holds : σ → Prop}
    (step : ∀ event state answer after, holds state →
      handler.receive event state = (.ok answer, after) → holds after)
    {r reader : Markup.Reader} {state after : σ} (start : holds state)
    (parses : r.parse store handler state = (.ok (), reader, after)) : holds after := by
  fun_induction Markup.Reader.parse store handler r state with
  | case1 r state cause later found => cases parses
  | case2 r state later found =>
    cases parses
    exact start
  | case3 r state later event found cause state' answer => cases parses
  | case4 r state later event found state' answer ih => exact ih (step _ _ _ _ start answer) parses
  | case5 r state later event found path state' answer cause reads => cases parses
  | case6 r state later event found path state' answer included reads ih =>
    exact ih (step _ _ _ _ start answer) parses

namespace Document

open Markup (Attributes Event HandlerM ParseError)

/-! ## Open declarations -/

namespace OpenDeclaration

variable {current later : OpenDeclaration} {line : Nat}

theorem scope?_of_addText {text : String} (adds : current.addText text line = .ok later) :
    later.scope? = current.scope? := by
  unfold addText at adds
  split at adds
  · cases adds
    rfl
  split at adds
  · cases adds
    rfl
  split at adds <;> cases adds
  rfl

theorem scope?_of_openInside {name : String} {attributes : Attributes}
    {inner : Option OpenDeclaration}
    (opens : current.openInside name attributes line = .ok (later, inner)) :
    later.scope? = current.scope? := by
  unfold openInside at opens
  split at opens
  · cases opens
  split at opens
  · cases opens
    rfl
  split at opens
  · cases started : start .property attributes line with
    | error cause => simp [started, bind, Except.bind] at opens
    | ok started' =>
      simp only [started, bind, Except.bind, pure, Except.pure, Except.ok.injEq] at opens
      cases opens
      rfl
  · cases opens

theorem scope?_of_closeInside {name : String}
    (closes : current.closeInside name line = .ok (some later)) :
    later.scope? = current.scope? := by
  unfold closeInside at closes
  split at closes
  · cases closes
  split at closes <;> cases closes
  rfl

/-- A configuration that is closed declares the scope of the properties inside. -/
theorem close_of_scope? {owner : String} (owns : current.scope? = some owner)
    (scope : Option String) :
    ∃ description selected, current.close scope = .config owner description selected := by
  unfold scope? at owns
  split at owns
  · rename_i config
    exact ⟨Text.trim current.description, current.flag, by simp [close, config, owns]⟩
  · cases owns

/-- The scope of a property is the one that it is closed with. -/
theorem eq_of_close_property {scope owner : Option String} {name description value : String}
    {overridable : Bool}
    (closed : current.close scope = .property name description value owner overridable) :
    owner = scope := by
  unfold close at closed
  split at closed <;> cases closed
  rfl

end OpenDeclaration

/-! ## Assemblies -/

/-- The owner of every property among the contents is a configuration among them, or one that is
open. -/
def Owned (content? : NodeId → Option Content) (declarations : List OpenDeclaration) : Prop :=
  ∀ id name description value owner overridable,
    content? id = some (.declaration (.property name description value (some owner) overridable)) →
    (∃ id description selected,
      content? id = some (.declaration (.config owner description selected))) ∨
      ∃ current ∈ declarations, current.scope? = some owner

theorem Owned.mono {content? : NodeId → Option Content} {declarations later : List OpenDeclaration}
    (owned : Owned content? declarations)
    (kept : ∀ current ∈ declarations, ∃ next ∈ later, next.scope? = current.scope?) :
    Owned content? later := by
  intro id name description value owner overridable found
  refine (owned id name description value owner overridable found).imp_right ?_
  rintro ⟨current, member, scope⟩
  obtain ⟨next, inside, same⟩ := kept current member
  exact ⟨next, inside, same.trans scope⟩

/-- What holds of a tree with the given lists while it is assembled. -/
structure Assembly.Builds (assembly : Assembly) (lists : Option NodeId → List NodeId) : Prop where
  listed : assembly.tree.Listed lists
  attached : ∀ id, id < assembly.tree.nodes.length → ∃ parent, id ∈ lists parent
  below : ∀ id, lists (some id) ≠ [] → ∃ name, assembly.tree.content? id = some (.block name)
  blocks : ∀ block ∈ assembly.blocks, ∃ name, assembly.tree.content? block.1 = some (.block name)
  owned : Owned assembly.tree.content? assembly.declarations

namespace Tree

variable {tree : Tree} {id : NodeId}

theorem content?_append (tree : Tree) (parent : Option NodeId) (content : Content) (line : Nat)
    (id : NodeId) :
    (tree.append parent content line).2.content? id =
      if id = tree.nodes.length then some content else tree.content? id := by
  rw [content?, node?_append, Option.map_map]
  split
  · rfl
  · exact congrArg (Option.map · (tree.node? id)) (funext fun node => rfl)

theorem content?_append_of_some {parent : Option NodeId} {content old : Content} {line : Nat}
    (found : tree.content? id = some old) :
    (tree.append parent content line).2.content? id = some old := by
  obtain ⟨node, there, -⟩ := Option.map_eq_some_iff.1 found
  rw [content?_append, if_neg (Nat.ne_of_lt (lt_length_of_node? there)), found]

/-- A new node keeps the owners if it is the configuration that is closed, and brings none that is
not open. -/
theorem owned_append {declarations later : List OpenDeclaration} {parent : Option NodeId}
    {content : Content} {line : Nat} (owned : Owned tree.content? declarations)
    (brings : ∀ name description value owner overridable,
      content = .declaration (.property name description value (some owner) overridable) →
      ∃ current ∈ later, current.scope? = some owner)
    (closes : ∀ current ∈ declarations, ∀ owner, current.scope? = some owner →
      (∃ description selected, content = .declaration (.config owner description selected)) ∨
        ∃ next ∈ later, next.scope? = some owner) :
    Owned (tree.append parent content line).2.content? later := by
  intro id name description value owner overridable found
  rw [content?_append] at found
  split at found
  · exact .inr (brings name description value owner overridable (Option.some.inj found))
  rcases owned id name description value owner overridable found with ⟨id, _, _, config⟩ |
    ⟨current, member, scope⟩
  · exact .inl ⟨id, _, _, content?_append_of_some config⟩
  · refine (closes current member owner scope).imp_left ?_
    rintro ⟨description, selected, same⟩
    exact ⟨tree.nodes.length, description, selected, by rw [content?_append, if_pos rfl, same]⟩

theorem lt_length_of_content? {content : Content} (found : tree.content? id = some content) :
    id < tree.nodes.length := by
  obtain ⟨node, there, -⟩ := Option.map_eq_some_iff.1 found
  exact lt_length_of_node? there

end Tree

namespace Assembly

variable {assembly : Assembly} {lists : Option NodeId → List NodeId}

theorem builds_empty : empty.Builds fun _ => [] where
  listed := Tree.listed_empty
  attached id inside := by cases inside
  below id some_ := absurd rfl some_
  blocks block member := by cases member
  owned id name description value owner overridable found := by cases found

namespace Builds

theorem insertionPoint_block (builds : assembly.Builds lists) {parent : NodeId}
    (point : assembly.insertionPoint = some parent) :
    ∃ name, assembly.tree.content? parent = some (.block name) := by
  obtain ⟨block, first, rfl⟩ := Option.map_eq_some_iff.1 point
  exact builds.blocks block (List.mem_of_head? first)

/-- Appending a node at the insertion point keeps the invariant, whatever becomes of the open blocks
and declarations. -/
theorem append (builds : assembly.Builds lists) (content : Content) (line : Nat)
    {tree : Tree} (same : tree = (assembly.tree.append assembly.insertionPoint content line).2)
    {blocks : List (NodeId × String)} {declarations : List OpenDeclaration}
    (opened : ∀ block ∈ blocks, ∃ name, tree.content? block.1 = some (.block name))
    (owned : Owned tree.content? declarations) :
    Builds { assembly with tree, blocks, declarations }
      (Function.update lists assembly.insertionPoint
        (lists assembly.insertionPoint ++ [assembly.tree.nodes.length])) := by
  subst same
  refine ⟨builds.listed.append (fun p point => ?_) content line, fun id inside => ?_,
    fun id some_ => ?_, opened, owned⟩
  · obtain ⟨name, found⟩ := builds.insertionPoint_block point
    exact Tree.lt_length_of_content? found
  · dsimp only at inside
    rw [Tree.length_append] at inside
    rcases Nat.lt_succ_iff_lt_or_eq.1 inside with old | new
    · obtain ⟨parent, member⟩ := builds.attached id old
      refine ⟨parent, ?_⟩
      by_cases here : parent = assembly.insertionPoint
      · subst here
        simp [member]
      · rwa [Function.update_of_ne here]
    · exact ⟨assembly.insertionPoint, by simp [new]⟩
  · have block : ∃ name, assembly.tree.content? id = some (.block name) := by
      by_cases here : some id = assembly.insertionPoint
      · exact builds.insertionPoint_block here.symm
      · rw [Function.update_of_ne here] at some_
        exact builds.below id some_
    obtain ⟨name, found⟩ := block
    exact ⟨name, Tree.content?_append_of_some found⟩

theorem redeclare (builds : assembly.Builds lists) {declarations : List OpenDeclaration}
    (kept : ∀ current ∈ assembly.declarations, ∃ next ∈ declarations,
      next.scope? = current.scope?) :
    Builds { assembly with declarations } lists :=
  ⟨builds.listed, builds.attached, builds.below, builds.blocks, builds.owned.mono kept⟩

end Builds

/-- What holds of a tree while it is assembled. -/
def Tidy (assembly : Assembly) : Prop := ∃ lists, assembly.Builds lists

theorem Tidy.redeclare (tidy : assembly.Tidy) {current later : OpenDeclaration}
    {outer : List OpenDeclaration} (isOpen : assembly.declarations = current :: outer)
    (same : later.scope? = current.scope?) (inner : List OpenDeclaration) :
    Tidy { assembly with declarations := inner ++ later :: outer } := by
  obtain ⟨lists, builds⟩ := tidy
  refine ⟨lists, builds.redeclare fun other member => ?_⟩
  rw [isOpen] at member
  rcases List.mem_cons.1 member with rfl | outside
  · exact ⟨later, by simp, same⟩
  · exact ⟨other, by simp [outside], rfl⟩

/-- A text or a block can be appended when no declaration is open. -/
theorem Tidy.append (tidy : assembly.Tidy) (idle : assembly.declarations = []) {content : Content}
    (plain : content.isDeclaration = false) (line : Nat) {tree : Tree}
    (same : tree = (assembly.tree.append assembly.insertionPoint content line).2)
    {blocks : List (NodeId × String)}
    (opened : ∀ block ∈ blocks, ∃ name, tree.content? block.1 = some (.block name)) :
    Tidy { assembly with tree, blocks } := by
  obtain ⟨lists, builds⟩ := tidy
  refine ⟨_, builds.append content line same opened ?_⟩
  subst same
  refine Tree.owned_append builds.owned (fun _ _ _ _ _ is => ?_) fun current member => ?_
  · rw [is] at plain
    cases plain
  · rw [idle] at member
    cases member

theorem Tidy.blocks_append (tidy : assembly.Tidy) (content : Content) (line : Nat)
    (parent : Option NodeId) (block : NodeId × String) (member : block ∈ assembly.blocks) :
    ∃ name, (assembly.tree.append parent content line).2.content? block.1 = some (.block name) := by
  obtain ⟨lists, builds⟩ := tidy
  obtain ⟨name, found⟩ := builds.blocks block member
  exact ⟨name, Tree.content?_append_of_some found⟩

/-! ## Events -/

/-- A step that takes a tidy assembly to a tidy one when it succeeds. -/
def KeepsTidy {α : Type} (step : HandlerM Assembly α) : Prop :=
  ∀ assembly answer after, assembly.Tidy → step assembly = (.ok answer, after) → after.Tidy

theorem keepsTidy_bind {α β : Type} {first : HandlerM Assembly α} {second : α → HandlerM Assembly β}
    (begins : KeepsTidy first) (continues : ∀ value, KeepsTidy (second value)) :
    KeepsTidy (first >>= second) := by
  intro assembly answer after tidy step
  obtain ⟨value, middle, starts, further⟩ := Attempt.run_bind_eq_ok_iff.1 step
  exact continues value middle answer after (begins _ _ _ tidy starts) further

theorem keepsTidy_pure {α : Type} (value : α) : KeepsTidy (pure value) := by
  intro assembly answer after tidy step
  cases step
  exact tidy

theorem keepsTidy_onText (text : String) (line : Nat) : KeepsTidy (onText text line) := by
  intro assembly answer after tidy step
  rw [onText, Attempt.run_get_bind] at step
  rcases isOpen : assembly.declarations with _ | ⟨current, outer⟩ <;> simp only [isOpen] at step
  · cases step
    exact tidy.append isOpen rfl line rfl (tidy.blocks_append _ _ _)
  · obtain ⟨later, adds, step⟩ := Attempt.run_ofExcept_bind_eq_ok_iff.1 step
    cases step
    exact tidy.redeclare isOpen (OpenDeclaration.scope?_of_addText adds) []

theorem keepsTidy_openInclude (attributes : Attributes) (line : Nat) :
    KeepsTidy (openInclude attributes line) := by
  intro assembly answer after tidy step
  rw [openInclude, Attempt.run_get_bind] at step
  split at step
  · cases step
  split at step <;> cases step
  obtain ⟨lists, builds⟩ := tidy
  exact ⟨lists, builds.listed, builds.attached, builds.below, builds.blocks, builds.owned⟩

theorem tidy_openBlock (tidy : assembly.Tidy) (idle : assembly.declarations = []) (name : String)
    (line : Nat) : (assembly.openBlock name line).Tidy := by
  refine tidy.append idle rfl line rfl fun block member => ?_
  rcases List.mem_cons.1 member with rfl | outer
  · exact ⟨name, (Tree.content?_append ..).trans (if_pos rfl)⟩
  · exact tidy.blocks_append _ _ _ block outer

theorem keepsTidy_onOpen (name : String) (attributes : Attributes) (line : Nat) :
    KeepsTidy (onOpen name attributes line) := by
  intro assembly answer after tidy step
  rw [onOpen, Attempt.run_get_bind] at step
  rcases isOpen : assembly.declarations with _ | ⟨current, outer⟩ <;> simp only [isOpen] at step
  · rcases kind : Keyword.ofElement? name with _ | keyword <;> simp only [kind] at step
    · split at step
      · exact keepsTidy_openInclude attributes line _ _ _ tidy step
      · cases step
        exact tidy_openBlock tidy isOpen name line
    · obtain ⟨started, starts, step⟩ := Attempt.run_ofExcept_bind_eq_ok_iff.1 step
      cases step
      obtain ⟨lists, builds⟩ := tidy
      exact ⟨lists, builds.redeclare (by simp [isOpen])⟩
  · obtain ⟨⟨later, inner⟩, opens, step⟩ := Attempt.run_ofExcept_bind_eq_ok_iff.1 step
    cases step
    exact tidy.redeclare isOpen (OpenDeclaration.scope?_of_openInside opens) inner.toList

theorem keepsTidy_closeBlock (name : String) (line : Nat) : KeepsTidy (closeBlock name line) := by
  intro assembly answer after tidy step
  rw [closeBlock, Attempt.run_get_bind] at step
  rcases same : assembly.blocks with _ | ⟨⟨id, block⟩, outer⟩ <;> simp only [same] at step
  · cases step
  · split at step <;> cases step
    obtain ⟨lists, builds⟩ := tidy
    refine ⟨lists, builds.listed, builds.attached, builds.below, fun block member => ?_,
      builds.owned⟩
    exact builds.blocks block (same ▸ List.mem_cons_of_mem _ member)

/-- A declaration that is closed becomes a node. -/
theorem tidy_closeDeclaration (tidy : assembly.Tidy) {current : OpenDeclaration}
    {outer : List OpenDeclaration} (isOpen : assembly.declarations = current :: outer) :
    Tidy { assembly.append
        (.declaration (current.close (outer.head? >>= OpenDeclaration.scope?))) current.line with
      declarations := outer } := by
  have opened := tidy.blocks_append
  obtain ⟨lists, builds⟩ := tidy
  refine ⟨_, builds.append _ _ rfl (opened _ _ _) (Tree.owned_append builds.owned ?_ ?_)⟩
  · intro name description value owner overridable closed
    have scope := OpenDeclaration.eq_of_close_property (Content.declaration.inj closed)
    obtain ⟨around, first, same⟩ := Option.bind_eq_some_iff.1 scope.symm
    exact ⟨around, List.mem_of_head? first, same⟩
  · intro other member owner scope
    rw [isOpen] at member
    rcases List.mem_cons.1 member with rfl | outside
    · obtain ⟨description, selected, config⟩ :=
        OpenDeclaration.close_of_scope? scope (outer.head? >>= OpenDeclaration.scope?)
      exact .inl ⟨description, selected, congrArg Content.declaration config⟩
    · exact .inr ⟨other, outside, scope⟩

theorem keepsTidy_onClose (name : String) (line : Nat) : KeepsTidy (onClose name line) := by
  intro assembly answer after tidy step
  rw [onClose, Attempt.run_get_bind] at step
  have closesBlock : KeepsTidy (closeBlock name line >>= fun _ => pure (none : Option String)) :=
    keepsTidy_bind (keepsTidy_closeBlock name line) fun _ => keepsTidy_pure _
  rcases isOpen : assembly.declarations with _ | ⟨current, outer⟩ <;> simp only [isOpen] at step
  · rcases pending : assembly.pendingInclude with _ | path <;> simp only [pending] at step
    · exact closesBlock _ _ _ tidy step
    · split at step
      · cases step
        obtain ⟨lists, builds⟩ := tidy
        exact ⟨lists, builds.listed, builds.attached, builds.below, builds.blocks,
          isOpen ▸ builds.owned⟩
      · exact closesBlock _ _ _ tidy step
  · obtain ⟨closed, closes, step⟩ := Attempt.run_ofExcept_bind_eq_ok_iff.1 step
    rcases closed with _ | later
    · cases step
      exact tidy_closeDeclaration tidy isOpen
    · cases step
      exact tidy.redeclare isOpen (OpenDeclaration.scope?_of_closeInside closes) []

theorem keepsTidy_receive (event : Event) : KeepsTidy (handler.receive event) := by
  cases event with
  | text content line =>
    exact keepsTidy_bind (keepsTidy_onText content line) fun _ => keepsTidy_pure _
  | opened name attributes line selfClosing =>
    refine keepsTidy_bind (keepsTidy_onOpen name attributes line) fun _ => ?_
    cases selfClosing with
    | true => exact keepsTidy_onClose name line
    | false => exact keepsTidy_pure _
  | closed name line => exact keepsTidy_onClose name line

/-- A tree is given out only when nothing is open any more. -/
theorem finish_eq_ok {assembly : Assembly} {line : Nat} {tree : Tree}
    (finishes : assembly.finish line = .ok tree) :
    assembly.declarations = [] ∧ assembly.tree = tree := by
  unfold finish at finishes
  split at finishes <;> cases finishes
  rename_i idle _ _
  exact ⟨idle, rfl⟩

end Assembly

/-! ## Templates -/

/-- What the tree of a template is like. -/
structure Tree.Tidy (tree : Tree) (F : Forest Content) : Prop where
  shows_ : tree.Shows F
  blocksOnly : F.BlocksOnly
  owned : ∀ name description value owner overridable,
    .property name description value (some owner) overridable ∈ F.declarations →
    ∃ description selected, .config owner description selected ∈ F.declarations

theorem Tree.parse_builds {store : Store} {text directory : String} {tree : Tree}
    (parses : Tree.parse store text directory = .ok tree) :
    ∃ lists F, tree.Listed lists ∧ tree.Tidy F := by
  unfold parse at parses
  split at parses
  · cases parses
  · rename_i reader assembly read
    obtain ⟨idle, rfl⟩ := Assembly.finish_eq_ok parses
    obtain ⟨lists, builds⟩ := Markup.Reader.parse_keeps
      (fun event state answer after => Assembly.keepsTidy_receive event state answer after)
      ⟨_, Assembly.builds_empty⟩ read
    obtain ⟨F, shown⟩ := builds.listed.exists_shows
    refine ⟨lists, F, builds.listed, shown, builds.listed.blocksOnly builds.below shown, ?_⟩
    intro name description value owner overridable member
    obtain ⟨id, -, found⟩ := shown.mem_toList_iff.1 (Forest.mem_declarations.1 member)
    rcases builds.owned id _ _ _ _ _ found with ⟨id, description, selected, config⟩ |
      ⟨current, opened, -⟩
    · have reached := builds.listed.mem_forest builds.attached (Tree.lt_length_of_content? config)
      exact ⟨description, selected,
        Forest.mem_declarations.2 (shown.mem_toList_iff.2 ⟨id, reached, config⟩)⟩
    · rw [idle] at opened
      cases opened

end Document

end ConfigTemplate
