import ConfigTemplate.Proofs.Document.Flat

/-!
# Writing documents

A document is a forest of texts, blocks and declarations, with what can be chosen when it is written:
the attributes of blocks, which childless elements are self-closing, and whether an empty description
has an element. Parsing the text of a document gives the document back.

Results:
1. `Markup.Tag.written_render`: what is written for a tag is that tag.
2. `Forest.carries_render`: the text of a document adds its contents to a sketch.
3. `Document.parse_render`: the tree of the text has the contents of the document.
-/

namespace ConfigTemplate

/-! ## Writing tags -/

namespace Markup

/-- A name starts with a letter or an underscore; digits and hyphens may follow. -/
def isName (name : String) : Bool :=
  match name.toList with
  | [] => false
  | c :: cs => Text.isWordStart c && cs.all Text.isWordPart

/-- A value with a backslash before each quote and each backslash. -/
def escape (value : String) : List Char :=
  value.toList.flatMap fun c => if c = '"' ∨ c = '\\' then ['\\', c] else [c]

def renderAttribute : String × String → List Char
  | (name, value) => ' ' :: (name.toList ++ ('=' :: '"' :: (escape value ++ ['"'])))

namespace Tag

def render : Tag → List Char
  | .opening name attributes selfClosing =>
    '<' :: (name.toList ++ (attributes.flatMap renderAttribute ++
      if selfClosing then ['/', '>'] else ['>']))
  | .closing name => '<' :: '/' :: (name.toList ++ ['>'])

/-- The names in a tag are names. -/
def Named : Tag → Prop
  | .opening name attributes _ => isName name ∧ ∀ binding ∈ attributes, isName binding.1
  | .closing name => isName name

end Tag

theorem escaped_escape (value : String) : Escaped (escape value) value.toList := by
  unfold escape
  induction value.toList with
  | nil => exact .nil
  | cons c cs ih =>
    rw [List.flatMap_cons]
    split
    · exact .escaped ih
    · rename_i plain
      rw [not_or] at plain
      exact .plain plain.1 plain.2 ih

theorem spells_name {name : String} (named : isName name) :
    Spells name.toList (.identifier name) := by
  unfold isName at named
  split at named
  · cases named
  · rename_i c cs same
    rw [Bool.and_eq_true, List.all_eq_true] at named
    have spelled := Spells.identifier named.1 named.2
    rwa [← same, String.ofList_toList] at spelled

/-- A token without blanks before it. -/
theorem Lexed.next {text rest : List Char} {token : Token} {tokens : List Token}
    (spells : Spells text token)
    (ends : ∀ name, token = .identifier name → ∀ c ∈ rest.head?, ¬ Text.isWordPart c)
    (further : Lexed rest tokens) : Lexed (text ++ rest) (token :: tokens) := by
  have blank : ∀ c ∈ ([] : List Char), isBlank c := nofun
  exact .token blank spells ends further

theorem Lexed.stop : Lexed ['>'] [.closeMarkup] := by
  have blank : ∀ c ∈ ([] : List Char), isBlank c := nofun
  exact .close blank

/-- Attributes stand behind a name and before something that cannot belong to it. -/
theorem lexed_attributes {attributes : List (String × String)}
    (named : ∀ binding ∈ attributes, isName binding.1) {rest : List Char} {tokens : List Token}
    (ends : ∀ c ∈ rest.head?, ¬ Text.isWordPart c) (further : Lexed rest tokens) :
    Lexed (attributes.flatMap renderAttribute ++ rest) (Tag.attributeTokens attributes ++ tokens) ∧
      ∀ c ∈ (attributes.flatMap renderAttribute ++ rest).head?, ¬ Text.isWordPart c := by
  induction attributes with
  | nil => exact ⟨further, ends⟩
  | cons binding attributes ih =>
    obtain ⟨name, value⟩ := binding
    obtain ⟨others, -⟩ := ih fun other member => named other (List.mem_cons_of_mem _ member)
    have quoted : Lexed (('"' :: (escape value ++ ['"'])) ++
        (attributes.flatMap renderAttribute ++ rest)) _ :=
      .next (.quoted (escaped_escape value)) nofun others
    have whole := Lexed.next .equals nofun quoted
    have spaced : Lexed ([' '] ++ _) _ :=
      .token (List.forall_mem_singleton.2 (by decide))
        (spells_name (named (name, value) List.mem_cons_self))
        (fun _ _ c first => by cases first; decide) whole
    refine ⟨?_, fun c first => ?_⟩
    · simpa [renderAttribute, Tag.attributeTokens] using spaced
    · obtain rfl : ' ' = c := by simpa [renderAttribute] using first
      decide

/-- What is written for a tag is that tag. -/
theorem Tag.written_render {tag : Tag} (named : tag.Named) : tag.Written tag.render := by
  cases tag with
  | closing name =>
    refine ⟨_, rfl, .next .slash nofun (.next (spells_name named) (fun _ _ c first => ?_) .stop)⟩
    cases first
    decide
  | opening name attributes selfClosing =>
    have last : Lexed (if selfClosing then ['/', '>'] else ['>'])
        (if selfClosing then [.slash, .closeMarkup] else [.closeMarkup]) := by
      cases selfClosing with
      | true => exact .next .slash nofun .stop
      | false => exact .stop
    have stops : ∀ c ∈ (if selfClosing then ['/', '>'] else ['>']).head?, ¬ Text.isWordPart c := by
      cases selfClosing <;>
        · rintro _ ⟨⟩
          decide
    obtain ⟨further, ends⟩ := lexed_attributes named.2 stops last
    exact ⟨_, rfl, .next (spells_name named.1) (fun _ _ => ends) further⟩

end Markup

namespace Document

open Markup (Attributes Tag isName)

/-! ## Documents -/

/-- The description of a declaration as it is written. An empty one may have no element. -/
inductive Note where
  | absent
  | written (text : String) (selfClosing : Bool)
deriving DecidableEq, Repr

structure PropertyDraft where
  name : String
  note : Note
  value : String
  overridable : Bool
  selfClosing : Bool
deriving DecidableEq, Repr

/-- A node of a document. An element that has nothing inside is self-closing if its mark says so. -/
inductive Draft where
  | text (characters : String)
  | block (condition : String) (attributes : List (String × String)) (selfClosing : Bool)
  | project (name : Option String) (note : Note) (selfClosing : Bool)
  /-- A configuration with the properties inside. -/
  | config (name : String) (note : Note) (selected : Bool) (properties : List PropertyDraft)
    (selfClosing : Bool)
  | define (name : String) (note : Note) (source : String) (selfClosing : Bool)
  | require (name : Option String) (note : Note) (source : String) (selfClosing : Bool)
  | property (draft : PropertyDraft)
deriving DecidableEq, Repr

namespace Note

def text : Note → String
  | .absent => ""
  | .written text _ => text

/-- A description is trimmed and holds no `<`. -/
def Proper (note : Note) : Prop := Text.trim note.text = note.text ∧ '<' ∉ note.text.toList

instance (note : Note) : Decidable note.Proper := instDecidableAnd

end Note

namespace PropertyDraft

def Proper (draft : PropertyDraft) : Prop := draft.note.Proper ∧ '<' ∉ draft.value.toList

instance (draft : PropertyDraft) : Decidable draft.Proper := instDecidableAnd

def declaration (draft : PropertyDraft) (scope : Option String) : Declaration :=
  .property draft.name draft.note.text draft.value scope draft.overridable

end PropertyDraft

/-- The names of elements that are not blocks. -/
def reservedNames : List String := ["project", "config", "define", "require", "property", "include"]

namespace Draft

def isText : Draft → Bool
  | .text _ => true
  | _ => false

def isBlock : Draft → Bool
  | .block _ _ _ => true
  | _ => false

def Proper : Draft → Prop
  | .text characters => characters ≠ "" ∧ '<' ∉ characters.toList
  | .block condition attributes _ =>
    isName condition ∧ condition ∉ reservedNames ∧ ∀ binding ∈ attributes, isName binding.1
  | .project _ note _ => note.Proper
  | .config _ note _ properties _ => note.Proper ∧ ∀ draft ∈ properties, draft.Proper
  | .define _ note source _ => note.Proper ∧ '<' ∉ source.toList
  | .require _ note source _ => note.Proper ∧ '<' ∉ source.toList
  | .property draft => draft.Proper

instance : (draft : Draft) → Decidable draft.Proper
  | .text _ => instDecidableAnd
  | .block _ _ _ => instDecidableAnd
  | .project _ note _ => inferInstanceAs (Decidable note.Proper)
  | .config _ _ _ _ _ => instDecidableAnd
  | .define _ _ _ _ => instDecidableAnd
  | .require _ _ _ _ => instDecidableAnd
  | .property draft => inferInstanceAs (Decidable draft.Proper)

/-- The declarations of a node, in the order in which their elements are closed. -/
def declarations : Draft → List Declaration
  | .text _ | .block _ _ _ => []
  | .project name note _ => [.project name note.text]
  | .config name note selected properties _ =>
    properties.map (·.declaration (some name)) ++ [.config name note.text selected]
  | .define name note source _ => [.define (some name) note.text source]
  | .require name note source _ => [.require name note.text source]
  | .property draft => [draft.declaration none]

/-! ### Writing documents -/

/-- An element with something inside. -/
def element (name : String) (attributes : List (String × String)) (selfClosing : Bool)
    (inside : List Char) : List Char :=
  if selfClosing && inside.isEmpty then (Tag.opening name attributes true).render
  else (Tag.opening name attributes false).render ++ (inside ++ (Tag.closing name).render)

def yesNo (flag : Bool) : String := if flag then "yes" else "no"

def nameAttribute (name : Option String) : List (String × String) := name.toList.map ("name", ·)

def renderNote : Note → List Char
  | .absent => []
  | .written description selfClosing => element "description" [] selfClosing description.toList

def renderProperty (draft : PropertyDraft) : List Char :=
  element "property" [("name", draft.name), ("overrideable", yesNo draft.overridable)]
    draft.selfClosing (renderNote draft.note ++ draft.value.toList)

/-- What is written for a node, of which the nodes below are already written. -/
def render (below : List Char) : Draft → List Char
  | .text characters => characters.toList
  | .block condition attributes selfClosing => element condition attributes selfClosing below
  | .project name note selfClosing =>
    element "project" (nameAttribute name) selfClosing (renderNote note)
  | .config name note selected properties selfClosing =>
    element "config" [("name", name), ("default", yesNo selected)] selfClosing
      (renderNote note ++ properties.flatMap renderProperty)
  | .define name note source selfClosing =>
    element "define" [("name", name)] selfClosing (renderNote note ++ source.toList)
  | .require name note source selfClosing =>
    element "require" (nameAttribute name) selfClosing (renderNote note ++ source.toList)
  | .property draft => renderProperty draft

end Draft

end Document

open Document

namespace Forest

/-- The text of a document. -/
def render : Forest Draft → List Char
  | .nil => []
  | .cons draft children rest => draft.render children.render ++ rest.render

/-- Declarations one after the other, and then a forest. -/
def declare (declarations : List Declaration) (rest : Forest Content) : Forest Content :=
  declarations.foldr (fun declared behind => .cons (.declaration declared) .nil behind) rest

/-- What a document says. The properties inside a configuration come right before it, with its name
as their scope. -/
def contents : Forest Draft → Forest Content
  | .nil => .nil
  | .cons (.text characters) _ rest => .cons (.text characters) .nil rest.contents
  | .cons (.block condition _ _) children rest =>
    .cons (.block condition) children.contents rest.contents
  | .cons draft _ rest => declare draft.declarations rest.contents

/-- All nodes are proper, only blocks have nodes below them, and no text follows a text. -/
def Proper : Forest Draft → Prop
  | .nil => True
  | .cons draft children rest =>
    draft.Proper ∧ (draft.isBlock ∨ children = .nil) ∧
      (draft.isText → ∀ next ∈ rest.roots.head?, ¬ next.isText) ∧ children.Proper ∧ rest.Proper

end Forest

namespace Document

open Markup (Attributes Tag isName)

variable {α : Type} {put : Nat × Content → List α} {sketch opened filled later : Sketch α}

/-- Puts the nodes of a forest down below the open blocks. -/
def Sketch.extend (put : Nat × Content → List α) (F : Forest Content) (sketch : Sketch α) :
    Sketch α :=
  { sketch with outline := sketch.outline ++ (F.levels sketch.blocks.length).flatMap put }

theorem Sketch.extend_nil (sketch : Sketch α) : sketch.extend put .nil = sketch := by
  simp [Sketch.extend, Forest.levels]

theorem Sketch.extend_append (F G : Forest Content) (sketch : Sketch α) :
    sketch.extend put (F.append G) = (sketch.extend put F).extend put G := by
  simp [Sketch.extend, Forest.levels_append]

/-! ## Feeding elements -/

theorem written_closing {name : String} (named : isName name) :
    (Tag.closing name).Written (Tag.closing name).render := Tag.written_render named

/-- An element takes a sketch where its opening, the text inside and its closing take it. -/
theorem takes_element {name : String} {attributes : List (String × String)}
    (named : isName name) (names : ∀ binding ∈ attributes, isName binding.1) {inside : List Char}
    (selfClosing : Bool) (opened filled : Sketch α)
    (opens : sketch.onOpen put name (.ofList attributes) = some opened)
    (fills : Carries put inside opened filled) (empty : inside = [] → filled = opened)
    (closes : filled.onClose put name = some (none, later)) :
    Takes put (Draft.element name attributes selfClosing inside) sketch later := by
  unfold Draft.element
  split
  · rename_i short
    rw [Bool.and_eq_true, List.isEmpty_iff] at short
    rw [empty short.2] at closes
    refine takes_tag (Tag.written_render ⟨named, names⟩) ?_
    simp [Tag.event, Sketch.receive, opens, closes]
  · have opening : Takes put (Tag.opening name attributes false).render sketch opened := by
      refine takes_tag (Tag.written_render ⟨named, names⟩) ?_
      simp [Tag.event, Sketch.receive, opens]
    have closing : Takes put (Tag.closing name).render filled later :=
      takes_tag (written_closing named) closes
    refine opening.append fun rest last feeds => ?_
    rw [List.append_assoc]
    refine fills _ last (fun c first => ?_) (closing rest last feeds)
    cases first
    rfl

variable {current : OpenDeclaration} {outer : List OpenDeclaration}

theorem ofElement?_element (keyword : Keyword) : Keyword.ofElement? keyword.element = some keyword := by
  cases keyword <;> decide

theorem isName_element (keyword : Keyword) : isName keyword.element := by
  cases keyword <;> decide

/-- A description is added to the declaration that is open. -/
theorem takes_note {note : Note} (proper : note.Proper) (isOpen : sketch.declarations = current :: outer)
    (outside : current.inDescription = false) :
    Takes put (Draft.renderNote note) sketch
      { sketch with
        declarations := { current with description := current.description ++ note.text } :: outer } := by
  cases note with
  | absent =>
    have same : { sketch with declarations := { current with
        description := current.description ++ Note.absent.text } :: outer } = sketch := by
      simp [Note.text, ← isOpen]
    rw [same]
    exact .nil sketch
  | written text selfClosing =>
    refine takes_element (by decide) (by simp) selfClosing
      { sketch with declarations := { current with inDescription := true } :: outer }
      { sketch with declarations :=
        { current with inDescription := true, description := current.description ++ text } :: outer }
      ?_ (carries_text proper.2 ?_) ?_ ?_
    · simp [Sketch.onOpen, isOpen, OpenDeclaration.openInside, outside, Except.toOption]
    · split
      · rename_i blank
        simp [blank]
      · simp [Sketch.onText, OpenDeclaration.addText, Except.toOption]
    · intro blank
      obtain rfl : text = "" := String.toList_injective blank
      simp
    · simp [Sketch.onClose, OpenDeclaration.closeInside, OpenDeclaration.openElement,
        Except.toOption, outside, Note.text]

/-! ## Feeding declarations -/

theorem element_starts (name : String) (attributes : List (String × String)) (selfClosing : Bool)
    (inside : List Char) :
    ∃ rest, Draft.element name attributes selfClosing inside = '<' :: rest := by
  unfold Draft.element
  split <;> exact ⟨_, rfl⟩

theorem text_of_renderNote {note : Note} (blank : Draft.renderNote note = []) : note.text = "" := by
  cases note with
  | absent => rfl
  | written text selfClosing =>
    obtain ⟨rest, same⟩ := element_starts "description" [] selfClosing text.toList
    cases same.symm.trans blank

/-- Puts declarations down one after the other. -/
def Sketch.declare (put : Nat × Content → List α) (declarations : List Declaration)
    (sketch : Sketch α) : Sketch α :=
  { sketch with
    outline := sketch.outline ++
      declarations.flatMap fun declared => put (sketch.blocks.length, .declaration declared) }

theorem Sketch.declare_nil (sketch : Sketch α) : sketch.declare put [] = sketch := by
  simp [Sketch.declare]

theorem Sketch.declare_append (first second : List Declaration) (sketch : Sketch α) :
    sketch.declare put (first ++ second) = (sketch.declare put first).declare put second := by
  simp [Sketch.declare]

variable {keyword : Keyword} {attributes : List (String × String)} {name : Option String}
  {flag : Bool} {note : Note}

/-- A declaration with a description and a body. -/
theorem takes_declaration (names : ∀ binding ∈ attributes, isName binding.1)
    (opens : sketch.onOpen put keyword.element (.ofList attributes) = some { sketch with
      declarations := ⟨keyword, name, flag, "", "", false, 0⟩ :: sketch.declarations })
    (proper : note.Proper) {body : String} (plain : '<' ∉ body.toList)
    (bodied : body ≠ "" → keyword.hasBody) (selfClosing : Bool) {declaration : Declaration}
    (closes : OpenDeclaration.close ⟨keyword, name, flag, note.text, body, false, 0⟩
      (sketch.declarations.head? >>= OpenDeclaration.scope?) = declaration) :
    Takes put (Draft.element keyword.element attributes selfClosing
      (Draft.renderNote note ++ body.toList)) sketch (sketch.declare put [declaration]) := by
  let declared : OpenDeclaration := ⟨keyword, name, flag, note.text, body, false, 0⟩
  refine takes_element (isName_element keyword) names selfClosing _
    { sketch with declarations := declared :: sketch.declarations } opens
    (Takes.append_carries (takes_note proper rfl rfl) (carries_text plain ?_)) ?_ ?_
  · split
    · rename_i blank
      simp [declared, blank]
    · rename_i some_
      simp [Sketch.onText, OpenDeclaration.addText, Except.toOption, bodied some_, declared]
  · intro blank
    obtain ⟨noted, empty⟩ := List.append_eq_nil_iff.1 blank
    obtain rfl : body = "" := String.toList_injective empty
    simp [declared, text_of_renderNote noted]
  · simp only [Option.bind_eq_bind] at closes
    simp [Sketch.onClose, OpenDeclaration.closeInside, OpenDeclaration.openElement,
      Except.toOption, declared, Sketch.write, Sketch.declare, closes]

theorem yesOrNo_yesNo {attributes : Attributes} {name : String} {flag : Bool}
    (held : attributes.get? name = some (Draft.yesNo flag)) (others : List String) (default : Bool)
    (line : Nat) : yesOrNo attributes (name :: others) default line = .ok flag := by
  cases flag <;> simp [yesOrNo, held, Draft.yesNo]

/-- A declaration that is opened outside of others. -/
theorem onOpen_start (idle : sketch.declarations = []) (keyword : Keyword)
    {attributes : Attributes} {started : OpenDeclaration}
    (starts : OpenDeclaration.start keyword attributes 0 = .ok started) :
    sketch.onOpen put keyword.element attributes =
      some { sketch with declarations := started :: sketch.declarations } := by
  simp [Sketch.onOpen, idle, ofElement?_element, starts, Except.toOption]

theorem start_config {attributes : Attributes} {name : String} {selected : Bool}
    (named : attributes.get? "name" = some name)
    (flag : attributes.get? "default" = some (Draft.yesNo selected)) :
    OpenDeclaration.start .config attributes 0 =
      .ok ⟨.config, some name, selected, "", "", false, 0⟩ := by
  simp [OpenDeclaration.start, named, yesOrNo_yesNo flag, Keyword.requiresName, bind, Except.bind,
    pure, Except.pure]

theorem start_property {attributes : Attributes} {name : String} {overridable : Bool}
    (named : attributes.get? "name" = some name)
    (flag : attributes.get? "overrideable" = some (Draft.yesNo overridable)) :
    OpenDeclaration.start .property attributes 0 =
      .ok ⟨.property, some name, overridable, "", "", false, 0⟩ := by
  simp [OpenDeclaration.start, named, yesOrNo_yesNo flag, Keyword.requiresName, bind, Except.bind,
    pure, Except.pure]

/-- A declaration without a flag that may have no name, or has one. -/
theorem start_unflagged {keyword : Keyword} (plain : keyword ≠ .config ∧ keyword ≠ .property)
    {attributes : Attributes} {name : Option String} (named : attributes.get? "name" = name)
    (required : keyword.requiresName → name.isSome) :
    OpenDeclaration.start keyword attributes 0 = .ok ⟨keyword, name, false, "", "", false, 0⟩ := by
  have present : (keyword.requiresName && name.isNone) = false := by
    cases needed : keyword.requiresName with
    | false => rfl
    | true => simpa using required needed
  cases keyword with
  | config => exact absurd rfl plain.1
  | property => exact absurd rfl plain.2
  | project | define | require =>
    simp [OpenDeclaration.start, named, present, bind, Except.bind, pure, Except.pure]

theorem get?_nameAttribute (name : Option String) :
    (NameMap.ofList (Draft.nameAttribute name)).get? "name" = name := by
  cases name <;> simp [Draft.nameAttribute, NameMap.ofList]

theorem isName_nameAttribute {name : Option String} :
    ∀ binding ∈ Draft.nameAttribute name, isName binding.1 := by
  cases name with
  | none => simp [Draft.nameAttribute]
  | some name =>
    intro binding member
    obtain rfl := List.mem_singleton.1 member
    exact (by decide : isName "name")

/-- A property takes the name of the configuration around it as its scope. -/
theorem takes_property {draft : PropertyDraft} (proper : draft.Proper)
    (opens : ∀ attributes : Attributes, attributes.get? "name" = some draft.name →
      attributes.get? "overrideable" = some (Draft.yesNo draft.overridable) →
      sketch.onOpen put "property" attributes = some { sketch with declarations :=
        ⟨.property, some draft.name, draft.overridable, "", "", false, 0⟩ :: sketch.declarations }) :
    Takes put (Draft.renderProperty draft) sketch (sketch.declare put
      [draft.declaration (sketch.declarations.head? >>= OpenDeclaration.scope?)]) := by
  have names : ∀ binding ∈ [("name", draft.name), ("overrideable", Draft.yesNo draft.overridable)],
      isName binding.1 := by
    intro binding member
    simp only [List.mem_cons, List.not_mem_nil, or_false] at member
    rcases member with rfl | rfl
    · exact (by decide : isName "name")
    · exact (by decide : isName "overrideable")
  have started : sketch.onOpen put Keyword.property.element _ = _ :=
    opens (.ofList [("name", draft.name), ("overrideable", Draft.yesNo draft.overridable)])
      (by simp [NameMap.ofList]) (by simp [NameMap.ofList])
  refine takes_declaration names started proper.1 proper.2 (fun _ => rfl) draft.selfClosing ?_
  simp [OpenDeclaration.close, PropertyDraft.declaration, proper.1.1]

/-- The properties inside a configuration. -/
theorem takes_properties {properties : List PropertyDraft}
    (proper : ∀ draft ∈ properties, draft.Proper) {config : OpenDeclaration} {owner : String}
    (isConfig : config.keyword = .config) (outside : config.inDescription = false)
    (named : config.name = some owner) (isOpen : sketch.declarations = [config]) :
    Takes put (properties.flatMap Draft.renderProperty) sketch
      (sketch.declare put (properties.map (·.declaration (some owner)))) := by
  induction properties generalizing sketch with
  | nil =>
    rw [List.map_nil, Sketch.declare_nil]
    exact .nil sketch
  | cons draft properties ih =>
    have scope : sketch.declarations.head? >>= OpenDeclaration.scope? = some owner := by
      simp [isOpen, OpenDeclaration.scope?, isConfig, named]
    have first : Takes put _ sketch _ := takes_property (proper draft List.mem_cons_self)
      fun attributes name flag => by
        simp [Sketch.onOpen, isOpen, OpenDeclaration.openInside, outside, isConfig,
          Keyword.element, start_property name flag, Except.toOption, bind, Except.bind, pure,
          Except.pure]
    rw [scope] at first
    have others : Takes put _ (sketch.declare put [draft.declaration (some owner)]) _ :=
      ih (fun other member => proper other (List.mem_cons_of_mem _ member)) isOpen
    rw [List.flatMap_cons, List.map_cons, ← List.singleton_append, Sketch.declare_append]
    exact first.append others

/-- A configuration comes behind the properties inside. -/
theorem takes_config (idle : sketch.declarations = []) {name : String} (proper : note.Proper)
    (selected : Bool) {properties : List PropertyDraft} (all : ∀ draft ∈ properties, draft.Proper)
    (selfClosing : Bool) :
    Takes put (Draft.element "config" [("name", name), ("default", Draft.yesNo selected)] selfClosing
        (Draft.renderNote note ++ properties.flatMap Draft.renderProperty)) sketch
      (sketch.declare put (properties.map (·.declaration (some name)) ++
        [.config name note.text selected])) := by
  have names : ∀ binding ∈ [("name", name), ("default", Draft.yesNo selected)],
      isName binding.1 := by
    intro binding member
    simp only [List.mem_cons, List.not_mem_nil, or_false] at member
    rcases member with rfl | rfl
    · exact (by decide : isName "name")
    · exact (by decide : isName "default")
  let attributes : Attributes := .ofList [("name", name), ("default", Draft.yesNo selected)]
  have starts : OpenDeclaration.start .config attributes 0 =
      .ok ⟨.config, some name, selected, "", "", false, 0⟩ :=
    start_config (by simp [attributes, NameMap.ofList]) (by simp [attributes, NameMap.ofList])
  let declared : OpenDeclaration := ⟨.config, some name, selected, note.text, "", false, 0⟩
  let noted : Sketch α := { sketch with declarations := declared :: sketch.declarations }
  have isOpen : noted.declarations = [declared] := by simp [noted, idle]
  have inner : Takes put (properties.flatMap Draft.renderProperty) noted
      (noted.declare put (properties.map (·.declaration (some name)))) :=
    takes_properties all rfl rfl rfl isOpen
  let started : Sketch α := { sketch with declarations :=
    ⟨.config, some name, selected, "", "", false, 0⟩ :: sketch.declarations }
  have begins : Takes put (Draft.renderNote note) started noted := by
    have first : started.declarations =
      ⟨.config, some name, selected, "", "", false, 0⟩ :: sketch.declarations := rfl
    have takes : Takes put (Draft.renderNote note) started _ := takes_note proper first rfl
    rwa [String.empty_append] at takes
  refine takes_element (by decide) names selfClosing _ _ (onOpen_start idle .config starts)
    (begins.append inner).carries (fun blank => ?_) ?_
  · obtain ⟨unnoted, empty⟩ := List.append_eq_nil_iff.1 blank
    obtain rfl : properties = [] := by
      cases properties with
      | nil => rfl
      | cons draft properties =>
        obtain ⟨rest, same⟩ := element_starts "property" [("name", draft.name),
          ("overrideable", Draft.yesNo draft.overridable)] draft.selfClosing
          (Draft.renderNote draft.note ++ draft.value.toList)
        rw [List.flatMap_cons, Draft.renderProperty, same] at empty
        cases empty
    rw [List.map_nil, Sketch.declare_nil]
    simp [noted, declared, text_of_renderNote unnoted]
  · simp [Sketch.onClose, Sketch.declare, noted, declared, OpenDeclaration.closeInside,
      OpenDeclaration.openElement, Keyword.element, Except.toOption, OpenDeclaration.close,
      Sketch.write, proper.1]

/-- The text of a node that is a declaration. -/
theorem takes_draft (idle : sketch.declarations = []) {draft : Draft} (proper : draft.Proper)
    (declares : draft.isText = false ∧ draft.isBlock = false) (below : List Char) :
    Takes put (draft.render below) sketch (sketch.declare put draft.declarations) := by
  have unscoped : sketch.declarations.head? >>= OpenDeclaration.scope? = none := by simp [idle]
  cases draft with
  | text characters => cases declares.1
  | block condition attributes selfClosing => cases declares.2
  | project name note selfClosing =>
    have opens : sketch.onOpen put Keyword.project.element _ = _ :=
      onOpen_start idle .project (start_unflagged (by simp) (get?_nameAttribute name)
        (by simp [Keyword.requiresName]))
    have takes : Takes put (Draft.element Keyword.project.element (Draft.nameAttribute name)
        selfClosing (Draft.renderNote note ++ "".toList)) sketch
        (sketch.declare put [.project name note.text]) :=
      takes_declaration isName_nameAttribute opens proper (by simp) (absurd rfl) selfClosing
        (by simp [OpenDeclaration.close, proper.1])
    rwa [String.toList_empty, List.append_nil] at takes
  | config name note selected properties selfClosing =>
    exact takes_config idle proper.1 selected proper.2 selfClosing
  | define name note source selfClosing =>
    have opens : sketch.onOpen put Keyword.define.element
        (.ofList (Draft.nameAttribute (some name))) = _ :=
      onOpen_start idle .define (start_unflagged (by simp) (get?_nameAttribute (some name))
        fun _ => rfl)
    refine takes_declaration isName_nameAttribute opens proper.1 proper.2 (fun _ => rfl)
      selfClosing ?_
    simp [OpenDeclaration.close, proper.1.1]
  | require name note source selfClosing =>
    have opens : sketch.onOpen put Keyword.require.element _ = _ :=
      onOpen_start idle .require (start_unflagged (by simp) (get?_nameAttribute name)
        (by simp [Keyword.requiresName]))
    refine takes_declaration isName_nameAttribute opens proper.1 proper.2 (fun _ => rfl)
      selfClosing ?_
    simp [OpenDeclaration.close, proper.1.1]
  | property draft =>
    have takes : Takes put (Draft.renderProperty draft) sketch _ := takes_property proper
      fun attributes name flag => onOpen_start idle .property (start_property name flag)
    rwa [unscoped] at takes

/-- A block takes the sketch where the nodes inside take it. -/
theorem takes_block (idle : sketch.declarations = []) (settled : sketch.pendingInclude = none)
    {condition : String} {attributes : List (String × String)} {selfClosing : Bool}
    (proper : (Draft.block condition attributes selfClosing).Proper) {inside : List Char}
    {F : Forest Content} (fills : Carries put inside (sketch.openBlock put condition)
      ((sketch.openBlock put condition).extend put F))
    (empty : inside = [] → F = .nil) :
    Takes put (Draft.element condition attributes selfClosing inside) sketch
      (sketch.extend put (.cons (.block condition) F .nil)) := by
  obtain ⟨named, free, names⟩ := proper
  simp only [reservedNames, List.mem_cons, List.not_mem_nil, or_false, not_or] at free
  obtain ⟨project, config, define, require, property, include_⟩ := free
  have unknown : Keyword.ofElement? condition = none := by
    simp [Keyword.ofElement?, Keyword.all, Keyword.element, Ne.symm project, Ne.symm config,
      Ne.symm define, Ne.symm require, Ne.symm property]
  refine takes_element named names selfClosing _ _ ?_ fills (fun blank => ?_) ?_
  · simp [Sketch.onOpen, idle, unknown, include_]
  · rw [empty blank, Sketch.extend_nil]
  · simp [Sketch.onClose, Sketch.extend, Sketch.openBlock, Sketch.write, Sketch.closeBlock, idle,
      settled, Forest.levels]

end Document

namespace Forest

open Document

variable {α : Type} {put : Nat × Content → List α} {sketch : Sketch α}

theorem extend_declare (declarations : List Declaration) (F : Forest Content) :
    sketch.extend put (declare declarations F) =
      (sketch.declare put declarations).extend put F := by
  induction declarations generalizing sketch with
  | nil => rw [Sketch.declare_nil]; rfl
  | cons first declarations ih =>
    rw [← List.singleton_append, Sketch.declare_append, ← ih]
    simp [Sketch.extend, Sketch.declare, declare, levels]

/-- What is not a text starts with an element. -/
theorem starts_draft {draft : Draft} (element : draft.isText = false) (below : List Char) :
    ∃ rest, draft.render below = '<' :: rest := by
  cases draft with
  | text characters => cases element
  | _ => exact element_starts _ _ _ _

theorem starts_render {F : Forest Draft} (first : ∀ draft ∈ F.roots.head?, ¬ draft.isText) :
    ∀ c ∈ F.render.head?, c = '<' := by
  cases F with
  | nil => nofun
  | cons draft children rest =>
    intro c member
    obtain ⟨_, same⟩ := starts_draft (eq_false_of_ne_true (first draft rfl)) children.render
    rw [render, same] at member
    cases member
    rfl

theorem render_eq_nil {F : Forest Draft} (proper : F.Proper) (blank : F.render = []) : F = .nil := by
  cases F with
  | nil => rfl
  | cons draft children rest =>
    obtain ⟨first, -⟩ := List.append_eq_nil_iff.1 blank
    cases kind : draft.isText with
    | true =>
      cases draft with
      | text characters =>
        have empty : characters.toList = "".toList := first
        exact absurd (String.toList_injective empty) proper.1.1
      | _ => cases kind
    | false =>
      obtain ⟨_, same⟩ := starts_draft kind children.render
      cases same.symm.trans first

/-- The text of a document adds its contents to a sketch. -/
theorem carries_render {F : Forest Draft} (proper : F.Proper) (idle : sketch.declarations = [])
    (settled : sketch.pendingInclude = none) :
    Carries put F.render sketch (sketch.extend put F.contents) := by
  induction F generalizing sketch with
  | nil =>
    rw [contents, Sketch.extend_nil]
    exact (Takes.nil sketch).carries
  | cons draft children rest ihChildren ihRest =>
    obtain ⟨proper, childless, apart, below, behind⟩ := proper
    cases draft with
    | text characters =>
      have first : Carries put characters.toList sketch
          (sketch.extend put (.cons (.text characters) .nil .nil)) := by
        refine carries_text proper.2 ?_
        rw [if_neg proper.1]
        simp [Sketch.onText, idle, Sketch.write, Sketch.extend, levels]
      have others : Carries put rest.render
          (sketch.extend put (.cons (.text characters) .nil .nil)) _ := ihRest behind idle settled
      rw [← Sketch.extend_append] at others
      exact first.append (starts_render (apart rfl)) others
    | block condition attributes selfClosing =>
      have inside : Carries put children.render (sketch.openBlock put condition) _ :=
        ihChildren below idle settled
      have first := takes_block idle settled proper inside
        fun blank => by rw [render_eq_nil below blank]; rfl
      have others : Carries put rest.render
          (sketch.extend put (.cons (.block condition) children.contents .nil)) _ :=
        ihRest behind idle settled
      rw [← Sketch.extend_append] at others
      exact first.append_carries others
    | project | config | define | require | property =>
      have first : Takes put _ sketch _ := takes_draft idle proper ⟨rfl, rfl⟩ children.render
      have whole := first.append_carries (ihRest behind idle settled)
      rwa [← extend_declare] at whole

end Forest

namespace Document

/-- The text of a proper document can be parsed, and the tree has the contents of the document. -/
theorem parse_render (F : Forest Draft) (proper : F.Proper) (store : Store) (directory : String) :
    ∃ tree, Tree.parse store (String.ofList F.render) directory = .ok tree ∧
      tree.levels.map (fun (depth, node) => (depth, node.content)) = F.contents.levels 0 := by
  have carries : Carries (fun item => [item]) F.render .empty _ := F.carries_render proper rfl rfl
  have feeds := carries [] _ nofun (.nil _)
  rw [List.append_nil, ← String.toList_ofList (l := F.render)] at feeds
  obtain ⟨tree, parses, outline⟩ := feeds.tree ⟨rfl, rfl, rfl⟩ store directory
  refine ⟨tree, parses, ?_⟩
  simpa [Tree.contentLevels, Sketch.extend, Sketch.empty] using outline

/-- A document with a configuration that has a property inside, a block with a rule, and texts around
them. -/
def exDraft : Forest Draft :=
  .cons (.config "a\"b" (.written "what" true) true [⟨"p", .absent, "> 1\r\n", false, true⟩] true) .nil
    (.cons (.text " \n") .nil
      (.cons (.block "_x-1" [("note", "\\")] true)
        (.cons (.require none (.written "" true) "a && b" true) .nil .nil)
        (.cons (.block "y" [] true) .nil .nil)))

theorem exDraft_parses :
    ∃ tree, Tree.parse ⟨[], []⟩ (String.ofList exDraft.render) "" = .ok tree ∧
      tree.levels.map (fun (depth, node) => (depth, node.content)) =
        [(0, .declaration (.property "p" "" "> 1\r\n" (some "a\"b") false)),
          (0, .declaration (.config "a\"b" "what" true)), (0, .text " \n"), (0, .block "_x-1"),
          (1, .declaration (.require none "" "a && b")), (0, .block "y")] :=
  parse_render exDraft (by simp [exDraft, Forest.Proper]; decide) ⟨[], []⟩ ""

end Document

end ConfigTemplate
