import ConfigTemplate.Property.Marker
import Mathlib.Data.List.Basic
import Mathlib.Data.List.TakeWhile

/-!
# Well-formed texts

Texts in which markers and the text between them cannot run into each other, and what a pass makes
of them.

Results:
1. `Scope.pass_append`: a pass replaces the markers of a well-formed text, whatever follows it.
2. `Scope.wellFormed_replacement`: for well-formed values the outcome is well-formed again.
-/

namespace ConfigTemplate.Property

/-! ## Well-formed texts -/

/-- Text without markers that leaves those beside it alone. -/
structure IsPlain (text : List Char) : Prop where
  noDelimiter : ¬ ['#', '#'] <:+: text
  head : text.head? ≠ some '#'
  last : text.getLast? ≠ some '#'

/-- A marker with the blanks that are written around its name. -/
structure Marker where
  before : List Char
  name : List Char
  after : List Char
  blankBefore : before.all Text.isSpaceOrTab
  nameCharacters : name.all isNameCharacter
  blankAfter : after.all Text.isSpaceOrTab

namespace Marker

/-- The property that is named. -/
def property (marker : Marker) : String := String.ofList marker.name

def content (marker : Marker) : List Char := marker.before ++ marker.name ++ marker.after

def written (marker : Marker) : List Char := '#' :: '#' :: (marker.content ++ ['#', '#'])

end Marker

inductive Part where
  | plain (text : List Char) (isPlain : IsPlain text)
  | marker (mark : Marker)

namespace Part

def written : Part → List Char
  | .plain text _ => text
  | .marker mark => mark.written

/-- The property that is named, if it is a marker. -/
def property? : Part → Option String
  | .plain _ _ => none
  | .marker mark => some mark.property

end Part

def written (parts : List Part) : List Char := parts.flatMap Part.written

/-- The properties that are named, in order. -/
def properties (parts : List Part) : List String := parts.filterMap Part.property?

/-- A sequence of plain text and markers. -/
def WellFormed (text : List Char) : Prop := ∃ parts, written parts = text

/-- The text has a marker with this name. -/
def Mentions (text : List Char) (name : String) : Prop :=
  ∃ parts, written parts = text ∧ name ∈ properties parts

theorem written_append (front back : List Part) :
    written (front ++ back) = written front ++ written back :=
  List.flatMap_append

theorem wellFormed_nil : WellFormed [] := ⟨[], rfl⟩

theorem WellFormed.append {front back : List Char} (first : WellFormed front)
    (second : WellFormed back) : WellFormed (front ++ back) := by
  obtain ⟨left, rfl⟩ := first
  obtain ⟨right, rfl⟩ := second
  exact ⟨left ++ right, written_append left right⟩

theorem written_singleton (part : Part) : written [part] = part.written := by simp [written]

theorem IsPlain.wellFormed {text : List Char} (isPlain : IsPlain text) : WellFormed text :=
  ⟨[.plain text isPlain], written_singleton _⟩

theorem Marker.wellFormed (mark : Marker) : WellFormed mark.written :=
  ⟨[.marker mark], written_singleton _⟩

theorem Mentions.wellFormed {text : List Char} {name : String} (mentions : Mentions text name) :
    WellFormed text :=
  let ⟨parts, same, _⟩ := mentions
  ⟨parts, same⟩

/-- A marker in the middle of a well-formed text is one of that text. -/
theorem Mentions.within {front text back : List Char} {name : String} (mentions : Mentions text name)
    (first : WellFormed front) (last : WellFormed back) : Mentions (front ++ text ++ back) name := by
  obtain ⟨left, rfl⟩ := first
  obtain ⟨parts, rfl, member⟩ := mentions
  obtain ⟨right, rfl⟩ := last
  refine ⟨left ++ parts ++ right, by simp [written_append], ?_⟩
  simp only [properties, List.filterMap_append, List.mem_append]
  exact .inl (.inr member)

/-! ## One pass -/

/-- What is read as the start of a marker. -/
def OpensMarker (c : Char) (rest : List Char) : Prop := c = '#' ∧ rest.head? = some '#'

theorem passFrom_char (value : String → String) {c : Char} {rest : List Char}
    (literal : ¬ OpensMarker c rest) :
    passFrom value none (c :: rest) = (passFrom value none rest).literal [c] := by
  rw [passFrom]
  rintro others rfl rfl
  exact literal ⟨rfl, rfl⟩

theorem passFrom_plain (value : String → String) {text : List Char} (rest : List Char)
    (noDelimiter : ¬ ['#', '#'] <:+: text) (last : text.getLast? ≠ some '#') :
    passFrom value none (text ++ rest) = (passFrom value none rest).literal text := by
  induction text with
  | nil => rfl
  | cons c text ih =>
    have literal : ¬ OpensMarker c (text ++ rest) := by
      rintro ⟨rfl, second⟩
      cases text with
      | nil => exact last rfl
      | cons d text =>
        obtain rfl : d = '#' := Option.some.inj second
        exact noDelimiter ⟨[], text, rfl⟩
    have inner : ¬ ['#', '#'] <:+: text := fun inside =>
      noDelimiter (inside.trans (List.suffix_cons c text).isInfix)
    have ending : text.getLast? ≠ some '#' := by
      cases text with
      | nil => nofun
      | cons d text => simpa using last
    rw [List.cons_append, passFrom_char value literal, ih inner ending]
    rfl

theorem passFrom_content (value : String → String) {text : List Char} (content rest : List Char)
    (noHash : '#' ∉ text) :
    passFrom value (some content) (text ++ rest) =
      passFrom value (some (text.reverse ++ content)) rest := by
  induction text generalizing content with
  | nil => rfl
  | cons c text ih =>
    have other : c ≠ '#' := fun same => noHash (same ▸ List.mem_cons_self)
    rw [List.cons_append, passFrom, ih _ fun member => noHash (List.mem_cons_of_mem _ member)]
    · simp
    · rintro others rfl -
      exact other rfl

theorem not_isSpaceOrTab_of_isNameCharacter {c : Char} (name : isNameCharacter c) :
    Text.isSpaceOrTab c = false := by
  refine Bool.eq_false_iff.2 fun blank => ?_
  rcases Bool.or_eq_true_iff.1 blank with same | same <;> rw [eq_of_beq same] at name <;> cases name

theorem markerName?_content (mark : Marker) : markerName? mark.content = some mark.property := by
  obtain ⟨before, name, after, blankBefore, nameCharacters, blankAfter⟩ := mark
  have boundary : ∀ c, after.head? = some c → isNameCharacter c = false := fun c first =>
    Bool.eq_false_iff.2 fun named => by
      have blank := List.all_eq_true.1 blankAfter c (List.mem_of_head? first)
      rw [not_isSpaceOrTab_of_isNameCharacter named] at blank
      cases blank
  have leading : before.dropWhile Text.isSpaceOrTab = [] :=
    List.dropWhile_eq_nil_iff.2 (List.all_eq_true.1 blankBefore)
  cases name with
  | nil =>
    have trailing : after.dropWhile Text.isSpaceOrTab = [] :=
      List.dropWhile_eq_nil_iff.2 (List.all_eq_true.1 blankAfter)
    simp [markerName?, Marker.content, Marker.property, List.dropWhile_append, leading, trailing]
  | cons c name =>
    have named := List.all_eq_true.1 nameCharacters
    have start := not_isSpaceOrTab_of_isNameCharacter (named c List.mem_cons_self)
    have begins : (before ++ (c :: name) ++ after).dropWhile Text.isSpaceOrTab =
        (c :: name) ++ after := by
      simp [List.dropWhile_append, leading, start]
    have split : ((c :: name) ++ after).takeWhile isNameCharacter = c :: name ∧
        ((c :: name) ++ after).dropWhile isNameCharacter = after := by
      rw [List.takeWhile_append_of_pos named, List.dropWhile_append_of_pos named]
      cases after with
      | nil => simp
      | cons d after => simp [boundary d rfl]
    simp only [markerName?, Marker.content, Marker.property, begins, split, blankAfter, if_true]

theorem hash_not_mem_content (mark : Marker) : '#' ∉ mark.content := by
  intro member
  rcases List.mem_append.1 member with member | member
  · rcases List.mem_append.1 member with member | member
    · exact absurd (List.all_eq_true.1 mark.blankBefore _ member) (by decide)
    · exact absurd (List.all_eq_true.1 mark.nameCharacters _ member) (by decide)
  · exact absurd (List.all_eq_true.1 mark.blankAfter _ member) (by decide)

theorem passFrom_marker (value : String → String) (mark : Marker) (rest : List Char) :
    passFrom value none (mark.written ++ rest) =
      (passFrom value none rest).replaced mark.property (value mark.property).toList := by
  have split : mark.written ++ rest = '#' :: '#' :: (mark.content ++ '#' :: '#' :: rest) := by
    simp [Marker.written]
  rw [split, passFrom, passFrom_content value [] _ (hash_not_mem_content mark), passFrom]
  simp only [List.append_nil, List.reverse_reverse, markerName?_content]

namespace Scope

variable {scope : Scope}

/-- What a pass puts in the place of a part. -/
def replacement (scope : Scope) : Part → List Char
  | .plain text _ => text
  | .marker mark => (scope.get mark.property).toList

theorem pass_append (scope : Scope) (parts : List Part) (rest : List Char) :
    scope.pass (written parts ++ rest) =
      ⟨parts.flatMap scope.replacement ++ (scope.pass rest).output,
        (scope.pass rest).last <|> (properties parts).getLast?⟩ := by
  induction parts with
  | nil => simp [written, properties]
  | cons part parts ih =>
    have split : written (part :: parts) ++ rest = part.written ++ (written parts ++ rest) := by
      simp [written]
    rw [pass, split]
    cases part with
    | plain text isPlain =>
      rw [Part.written, passFrom_plain scope.get _ isPlain.noDelimiter isPlain.last, ← pass, ih]
      simp [Pass.literal, replacement, properties, Part.property?]
    | marker mark =>
      rw [Part.written, passFrom_marker scope.get mark, ← pass, ih]
      cases (scope.pass rest).last <;>
        simp [Pass.replaced, replacement, properties, Part.property?, List.getLast?_cons]

theorem pass_written (scope : Scope) (parts : List Part) :
    scope.pass (written parts) = ⟨parts.flatMap scope.replacement, (properties parts).getLast?⟩ := by
  have whole := scope.pass_append parts []
  simpa [pass, passFrom] using whole

/-- Without markers a pass changes nothing. -/
theorem replacement_of_properties_eq_nil (scope : Scope) {parts : List Part}
    (none_ : properties parts = []) :
    parts.flatMap scope.replacement = written parts := by
  refine List.flatMap_congr fun part member => ?_
  cases part with
  | plain text isPlain => rfl
  | marker mark => exact absurd (List.filterMap_eq_nil_iff.1 none_ _ member) nofun

/-- All values that the scope gives are well-formed. -/
def WellFormed (scope : Scope) : Prop := ∀ name, Property.WellFormed (scope.get name).toList

theorem wellFormed_replacement (values : scope.WellFormed) (parts : List Part) :
    Property.WellFormed (parts.flatMap scope.replacement) := by
  induction parts with
  | nil => exact wellFormed_nil
  | cons part parts ih =>
    rw [List.flatMap_cons]
    refine .append ?_ ih
    cases part with
    | plain text isPlain => exact isPlain.wellFormed
    | marker mark => exact values mark.property

end Scope

end ConfigTemplate.Property
