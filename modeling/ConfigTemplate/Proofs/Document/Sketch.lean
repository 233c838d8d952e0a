import ConfigTemplate.Proofs.Document.Outline

/-!
# Sketches of assemblies

A sketch is what an assembly comes to when the numbers, the links and the lines of its nodes do not
matter: the outline of its tree, the names of the open blocks, and the open declarations. Events can
be applied to a sketch directly. How a line of an outline is put down is left open, so that the same
sketches serve where texts count as a whole and where only their characters count.

Results:
1. `Assembly.mirrors_receive`: the sketch behind an event is the event applied to the sketch.
2. `Assembly.finish_eq_ok_iff`: an assembly is a tree when nothing is open in its sketch.
-/

namespace ConfigTemplate.Document

open Markup (Attributes Event HandlerM ParseError)

/-! ## Declarations on other lines -/

namespace OpenDeclaration

variable {name text : String} {attributes : Attributes}

/-- The declaration as if its element were on another line. -/
def relined (f : Nat → Nat) (current : OpenDeclaration) : OpenDeclaration :=
  { current with line := f current.line }

/-- The declaration as if its element were on line zero. -/
def unlined (current : OpenDeclaration) : OpenDeclaration := { current with line := 0 }

@[simp] theorem relined_keyword (f : Nat → Nat) (current : OpenDeclaration) :
    (current.relined f).keyword = current.keyword := rfl

@[simp] theorem relined_inDescription (f : Nat → Nat) (current : OpenDeclaration) :
    (current.relined f).inDescription = current.inDescription := rfl

@[simp] theorem relined_openElement (f : Nat → Nat) (current : OpenDeclaration) :
    (current.relined f).openElement = current.openElement := rfl

@[simp] theorem relined_close (f : Nat → Nat) (current : OpenDeclaration) (scope : Option String) :
    (current.relined f).close scope = current.close scope := rfl

@[simp] theorem unlined_close (current : OpenDeclaration) (scope : Option String) :
    current.unlined.close scope = current.close scope := rfl

/-- Computations that yield the same come to the same when they go on in the same way. -/
theorem map_toOption_bind {ε β γ δ ζ : Type} {first : Except ε β} {other : Except ε γ}
    {image : β → γ} {next : β → Except ε δ} {further : γ → Except ε ζ} {result : δ → ζ}
    (same : first.toOption.map image = other.toOption)
    (continues : ∀ value, (next value).toOption.map result = (further (image value)).toOption) :
    (first >>= next).toOption.map result = (other >>= further).toOption := by
  cases first with
  | error cause =>
    cases other with
    | error cause => rfl
    | ok value => cases same
  | ok value =>
    cases other with
    | error cause => cases same
    | ok image =>
      cases same
      exact continues value

/-- Whether an attribute can be read does not depend on the line. -/
theorem toOption_yesOrNo (names : List String) (default : Bool) (line other : Nat) :
    (yesOrNo attributes names default line).toOption.map id =
      (yesOrNo attributes names default other).toOption := by
  unfold yesOrNo
  split
  · rfl
  split
  · rfl
  split <;> rfl

theorem start_relined (f : Nat → Nat) (keyword : Keyword) (attributes : Attributes) (line : Nat) :
    (start keyword attributes line).toOption.map (relined f) =
      (start keyword attributes (f line)).toOption := by
  unfold start
  by_cases missing : keyword.requiresName && (attributes.get? "name").isNone
  · simp only [missing]
    rfl
  · simp only [missing]
    cases keyword with
    | project | define | require => rfl
    | config | property => exact map_toOption_bind (toOption_yesOrNo _ _ line _) fun flag => rfl

theorem addText_relined (f : Nat → Nat) (current : OpenDeclaration) (text : String)
    (line other : Nat) :
    (current.addText text line).toOption.map (relined f) =
      ((current.relined f).addText text other).toOption := by
  unfold addText
  by_cases described : current.inDescription
  · simp only [relined_inDescription, described]
    rfl
  by_cases bodied : current.keyword.hasBody
  · simp only [relined_inDescription, relined_keyword, described, bodied]
    rfl
  by_cases blank : Text.isAllWhiteSpace text <;>
    simp only [relined_inDescription, relined_keyword, described, bodied, blank] <;> rfl

theorem openInside_relined (f : Nat → Nat) (current : OpenDeclaration) (name : String)
    (attributes : Attributes) (line : Nat) :
    (current.openInside name attributes line).toOption.map
        (fun (current, inner) => (current.relined f, inner.map (relined f))) =
      ((current.relined f).openInside name attributes (f line)).toOption := by
  unfold openInside
  by_cases described : current.inDescription
  · simp only [relined_inDescription, described]
    rfl
  by_cases describes : name = "description"
  · simp only [relined_inDescription, described, if_pos describes]
    rfl
  by_cases property : current.keyword = .config ∧ name = Keyword.property.element
  · simp only [relined_inDescription, relined_keyword, described, property]
    exact map_toOption_bind (start_relined f .property attributes line) fun started => rfl
  · simp only [relined_inDescription, relined_keyword, described, describes, property]
    rfl

theorem closeInside_relined (f : Nat → Nat) (current : OpenDeclaration) (name : String)
    (line other : Nat) :
    (current.closeInside name line).toOption.map (Option.map (relined f)) =
      ((current.relined f).closeInside name other).toOption := by
  unfold closeInside
  by_cases same : name = current.openElement
  · by_cases described : current.inDescription <;>
      simp only [relined_openElement, relined_inDescription, same, ne_eq, not_true_eq_false,
        described] <;> rfl
  · simp only [relined_openElement, ne_eq, same]
    rfl

theorem start_unlined (keyword : Keyword) (attributes : Attributes) (line : Nat) :
    (start keyword attributes line).toOption.map unlined =
      (start keyword attributes 0).toOption := start_relined (fun _ => 0) keyword attributes line

theorem addText_unlined (current : OpenDeclaration) (text : String) (line : Nat) :
    (current.addText text line).toOption.map unlined =
      (current.unlined.addText text 0).toOption := addText_relined (fun _ => 0) current text line 0

theorem openInside_unlined (current : OpenDeclaration) (name : String) (attributes : Attributes)
    (line : Nat) :
    (current.openInside name attributes line).toOption.map
        (fun (current, inner) => (current.unlined, inner.map unlined)) =
      (current.unlined.openInside name attributes 0).toOption :=
  openInside_relined (fun _ => 0) current name attributes line

theorem closeInside_unlined (current : OpenDeclaration) (name : String) (line : Nat) :
    (current.closeInside name line).toOption.map (Option.map unlined) =
      (current.unlined.closeInside name 0).toOption :=
  closeInside_relined (fun _ => 0) current name line 0

end OpenDeclaration

/-! ## Sketches -/

structure Sketch (α : Type) where
  outline : List α
  /-- The names of the open blocks, the innermost first. -/
  blocks : List String
  /-- The open declarations, the innermost first. -/
  declarations : List OpenDeclaration
  /-- The path of the `include` element that is open. -/
  pendingInclude : Option String

namespace Sketch

variable {α : Type} (put : Nat × Content → List α)

def empty : Sketch α := ⟨[], [], [], none⟩

/-- Puts a node down. -/
def write (sketch : Sketch α) (content : Content) : Sketch α :=
  { sketch with outline := sketch.outline ++ put (sketch.blocks.length, content) }

def onText (text : String) (sketch : Sketch α) : Option (Sketch α) :=
  match sketch.declarations with
  | current :: outer =>
    (current.addText text 0).toOption.map fun later =>
      { sketch with declarations := later :: outer }
  | [] => some (sketch.write put (.text text))

def openInclude (attributes : Attributes) (sketch : Sketch α) : Option (Sketch α) :=
  if sketch.pendingInclude.isSome then none
  else (attributes.get? "path").map fun path => { sketch with pendingInclude := some path }

def openBlock (name : String) (sketch : Sketch α) : Sketch α :=
  { sketch.write put (.block name) with blocks := name :: sketch.blocks }

def onOpen (name : String) (attributes : Attributes) (sketch : Sketch α) : Option (Sketch α) :=
  match sketch.declarations with
  | current :: outer =>
    (current.openInside name attributes 0).toOption.map fun (later, inner) =>
      { sketch with declarations := inner.toList ++ later :: outer }
  | [] =>
    match Keyword.ofElement? name with
    | some keyword =>
      (OpenDeclaration.start keyword attributes 0).toOption.map fun started =>
        { sketch with declarations := [started] }
    | none =>
      if name = "include" then sketch.openInclude attributes
      else some (sketch.openBlock put name)

def closeBlock (name : String) (sketch : Sketch α) : Option (Sketch α) :=
  match sketch.blocks with
  | block :: outer => if block = name then some { sketch with blocks := outer } else none
  | [] => none

/-- The answer comes before the sketch. -/
def onClose (name : String) (sketch : Sketch α) : Option (Option String × Sketch α) :=
  match sketch.declarations with
  | current :: outer =>
    (current.closeInside name 0).toOption.map fun
      | some later => (none, { sketch with declarations := later :: outer })
      | none =>
        let declaration := current.close (outer.head? >>= OpenDeclaration.scope?)
        (none, { sketch.write put (.declaration declaration) with declarations := outer })
  | [] =>
    match sketch.pendingInclude with
    | some path =>
      if name = "include" then some (some path, { sketch with pendingInclude := none })
      else (sketch.closeBlock name).map (none, ·)
    | none => (sketch.closeBlock name).map (none, ·)

/-- The answer to an event, and the sketch behind it, unless the event is refused. -/
def receive (event : Event) (sketch : Sketch α) : Option (Option String × Sketch α) :=
  match event with
  | .text content _ => (sketch.onText put content).map (none, ·)
  | .opened name attributes _ selfClosing => do
    let later ← sketch.onOpen put name attributes
    if selfClosing then later.onClose put name else return (none, later)
  | .closed name _ => sketch.onClose put name

/-- Nothing is open. -/
def Closed (sketch : Sketch α) : Prop :=
  sketch.blocks = [] ∧ sketch.declarations = [] ∧ sketch.pendingInclude = none

end Sketch

/-! ## The sketch of an assembly -/

namespace Assembly

variable {α : Type} (put : Nat × Content → List α) {assembly : Assembly}

def sketch (assembly : Assembly) : Sketch α where
  outline := assembly.tree.contentLevels.flatMap put
  blocks := assembly.blocks.map Prod.snd
  declarations := assembly.declarations.map OpenDeclaration.unlined
  pendingInclude := assembly.pendingInclude

/-- What a step of an assembly comes to for its sketch. -/
def Mirrors {β : Type} (result : Except ParseError β × Assembly) (image : Option (β × Sketch α)) :
    Prop :=
  match result with
  | (.ok answer, after) => after.Ordered ∧ image = some (answer, after.sketch put)
  | (.error _, _) => image = none

/-- The first step has no answer of its own. -/
theorem mirrors_bind {β : Type} {first : HandlerM Assembly Unit} {image : Option (Sketch α)}
    (begins : Mirrors put (first assembly) (image.map ((), ·))) {second : HandlerM Assembly β}
    {further : Sketch α → Option (β × Sketch α)}
    (continues : ∀ after : Assembly, after.Ordered →
      Mirrors put (second after) (further (after.sketch put))) :
    Mirrors put ((first >>= fun _ => second) assembly) (image.bind further) := by
  rw [Attempt.run_bind]
  generalize first assembly = result at begins
  obtain ⟨cause | _, after⟩ := result
  · obtain rfl : image = none := Option.map_eq_none_iff.1 begins
    rfl
  · obtain ⟨ordered, same⟩ := begins
    obtain ⟨later, rfl, equal⟩ := Option.map_eq_some_iff.1 same
    cases equal
    exact continues after ordered

theorem mirrors_onText (ordered : assembly.Ordered) (text : String) (line : Nat) :
    Mirrors put (onText text line assembly)
      (((assembly.sketch put).onText put text).map ((), ·)) := by
  rw [onText, Attempt.run_get_bind]
  rcases isOpen : assembly.declarations with _ | ⟨current, outer⟩
  · obtain ⟨levels, -, later⟩ := ordered.extends (.text text) line ""
    refine ⟨later, ?_⟩
    simp [Sketch.onText, Sketch.write, sketch, isOpen, append, levels]
  · have adds := OpenDeclaration.addText_unlined current text line
    simp only [Sketch.onText, sketch, isOpen, List.map_cons, ← adds, Attempt.run_bind,
      Attempt.run_ofExcept]
    cases current.addText text line with
    | error cause => rfl
    | ok later => exact ⟨ordered.of_eq rfl rfl, rfl⟩

theorem mirrors_openInclude (ordered : assembly.Ordered) (attributes : Attributes) (line : Nat) :
    Mirrors put (openInclude attributes line assembly)
      (((assembly.sketch put).openInclude attributes).map ((), ·)) := by
  rw [openInclude, Attempt.run_get_bind, Sketch.openInclude]
  by_cases pending : assembly.pendingInclude.isSome
  · simp only [sketch, pending]
    rfl
  · simp only [sketch, pending]
    cases attributes.get? "path" with
    | none => rfl
    | some path => exact ⟨ordered.of_eq rfl rfl, rfl⟩

theorem mirrors_onOpen (ordered : assembly.Ordered) (name : String) (attributes : Attributes)
    (line : Nat) :
    Mirrors put (onOpen name attributes line assembly)
      (((assembly.sketch put).onOpen put name attributes).map ((), ·)) := by
  rw [onOpen, Attempt.run_get_bind]
  rcases isOpen : assembly.declarations with _ | ⟨current, outer⟩
  · simp only [Sketch.onOpen, sketch, isOpen, List.map_nil]
    rcases Keyword.ofElement? name with _ | keyword
    · dsimp only
      split
      · have opens := mirrors_openInclude put ordered attributes line
        simpa only [sketch, isOpen, List.map_nil] using opens
      · obtain ⟨levels, later, -⟩ := ordered.extends (.block name) line name
        refine ⟨later, ?_⟩
        simp [Sketch.openBlock, Sketch.write, sketch, isOpen, openBlock, levels]
    · have starts := OpenDeclaration.start_unlined keyword attributes line
      simp only [← starts, Attempt.run_bind, Attempt.run_ofExcept]
      cases OpenDeclaration.start keyword attributes line with
      | error cause => rfl
      | ok started => exact ⟨ordered.of_eq rfl rfl, rfl⟩
  · have opens := OpenDeclaration.openInside_unlined current name attributes line
    simp only [Sketch.onOpen, sketch, isOpen, List.map_cons, ← opens, Attempt.run_bind,
      Attempt.run_ofExcept]
    cases current.openInside name attributes line with
    | error cause => rfl
    | ok opened =>
      obtain ⟨later, inner⟩ := opened
      refine ⟨ordered.of_eq rfl rfl, ?_⟩
      cases inner <;> simp [Except.toOption, sketch]

theorem mirrors_closeBlock (ordered : assembly.Ordered) (name : String) (line : Nat) :
    Mirrors put (closeBlock name line assembly)
      (((assembly.sketch put).closeBlock name).map ((), ·)) := by
  rw [closeBlock, Attempt.run_get_bind]
  rcases same : assembly.blocks with _ | ⟨⟨id, block⟩, outer⟩
  · simp only [Sketch.closeBlock, sketch, same]
    rfl
  · simp only [Sketch.closeBlock, sketch, same, List.map_cons]
    split
    · obtain ⟨lists, listed, inOrder, last⟩ := ordered
      refine ⟨⟨lists, listed, inOrder, ?_⟩, rfl⟩
      simp only [same, List.map_cons, List.reverse_cons] at last
      exact last.of_append
    · rfl

theorem mirrors_onClose (ordered : assembly.Ordered) (name : String) (line : Nat) :
    Mirrors put (onClose name line assembly) ((assembly.sketch put).onClose put name) := by
  rw [onClose, Attempt.run_get_bind]
  have closes : Mirrors put ((closeBlock name line >>= fun _ => pure (none : Option String)) assembly)
      (((assembly.sketch put).closeBlock name).map (none, ·)) := by
    rw [Option.map_eq_bind]
    exact mirrors_bind put (mirrors_closeBlock put ordered name line)
      fun after ordered => ⟨ordered, rfl⟩
  rcases isOpen : assembly.declarations with _ | ⟨current, outer⟩
  · simp only [Sketch.onClose, sketch, isOpen, List.map_nil]
    rcases pending : assembly.pendingInclude with _ | path
    · simpa only [sketch, isOpen, pending, List.map_nil] using closes
    · dsimp only
      split
      · exact ⟨ordered.of_eq rfl rfl, by simp [sketch]⟩
      · simpa only [sketch, isOpen, pending, List.map_nil] using closes
  · have closing := OpenDeclaration.closeInside_unlined current name line
    simp only [Sketch.onClose, sketch, isOpen, List.map_cons, ← closing, Attempt.run_bind,
      Attempt.run_ofExcept]
    cases current.closeInside name line with
    | error cause => rfl
    | ok closed =>
      cases closed with
      | some later => exact ⟨ordered.of_eq rfl rfl, rfl⟩
      | none =>
        have scope : (outer.map OpenDeclaration.unlined).head? >>= OpenDeclaration.scope? =
            outer.head? >>= OpenDeclaration.scope? := by cases outer <;> rfl
        simp only [Except.toOption, Option.map_some, Option.map_none,
          OpenDeclaration.unlined_close, scope]
        generalize outer.head? >>= OpenDeclaration.scope? = owner
        obtain ⟨levels, -, later⟩ :=
          ordered.extends (.declaration (current.close owner)) current.line ""
        refine ⟨later.of_eq rfl rfl, ?_⟩
        simp [Sketch.write, append, levels, sketch]

/-- Behind an event the sketch is what the event makes of the sketch before it. -/
theorem mirrors_receive (ordered : assembly.Ordered) (event : Event) :
    Mirrors put (handler.receive event assembly) ((assembly.sketch put).receive put event) := by
  cases event with
  | text content line =>
    rw [Sketch.receive, Option.map_eq_bind]
    exact mirrors_bind put (mirrors_onText put ordered content line)
      fun after ordered => ⟨ordered, rfl⟩
  | opened name attributes line selfClosing =>
    refine mirrors_bind put (mirrors_onOpen put ordered name attributes line)
      fun after ordered => ?_
    cases selfClosing with
    | true => exact mirrors_onClose put ordered name line
    | false => exact ⟨ordered, rfl⟩
  | closed name line => exact mirrors_onClose put ordered name line

theorem sketch_of_receive (ordered : assembly.Ordered) {event : Event} {answer : Option String}
    {after : Assembly} (received : handler.receive event assembly = (.ok answer, after)) :
    after.Ordered ∧ (assembly.sketch put).receive put event = some (answer, after.sketch put) := by
  have mirrors := mirrors_receive put ordered event
  rw [received] at mirrors
  exact mirrors

theorem receive_of_sketch (ordered : assembly.Ordered) (event : Event) {answer : Option String}
    {later : Sketch α} (received : (assembly.sketch put).receive put event = some (answer, later)) :
    ∃ after, handler.receive event assembly = (.ok answer, after) ∧ after.Ordered ∧
      after.sketch put = later := by
  have mirrors := mirrors_receive put ordered event
  generalize handler.receive event assembly = result at mirrors
  obtain ⟨cause | answer, after⟩ := result
  · cases mirrors.symm.trans received
  · cases mirrors.2.symm.trans received
    exact ⟨after, rfl, mirrors.1, rfl⟩

/-- A tree is finished when nothing is open in its sketch. -/
theorem finish_eq_ok_iff {line : Nat} {tree : Tree} :
    assembly.finish line = .ok tree ↔ (assembly.sketch put).Closed ∧ assembly.tree = tree := by
  obtain ⟨built, blocks, declarations, pendingInclude⟩ := assembly
  rcases declarations with _ | ⟨current, outer⟩
  · rcases pendingInclude with _ | path
    · rcases blocks with _ | ⟨block, outer⟩ <;> simp [finish, sketch, Sketch.Closed]
    · simp [finish, sketch, Sketch.Closed]
  · simp [finish, sketch, Sketch.Closed]

end Assembly

end ConfigTemplate.Document
