import ConfigTemplate.Proofs.Document.Sketch

/-!
# Joining adjacent texts

It makes no difference to what a template says whether a text is one node or several in a row.
`Forest.mergeTexts` joins texts that are adjacent siblings. In an outline the same is said by giving
every character a line of its own, which `Document.spread` does. There texts can be split and joined
while an assembly is being built.

Results:
1. `Forest.mergeTexts_eq_of_levels`: forests whose outlines agree character by character are the same
   once adjacent texts are joined.
2. `Sketch.onText_append`: a text can come in two parts.
-/

namespace ConfigTemplate

open Document (Content)

namespace Document

/-- The characters of a text, each as a text of its own. An empty text stays. -/
def letters (text : String) : List String :=
  if text = "" then [""] else text.toList.map String.singleton

theorem letters_ne_nil (text : String) : letters text ≠ [] := by
  unfold letters
  split <;> simp_all

theorem join_letters (text : String) : String.join (letters text) = text := by
  unfold letters
  split
  · rename_i same
    rw [same]
    rfl
  · simp [← String.toList_inj, List.flatMap_map]

theorem letters_append {text more : String} (some_ : text ≠ "") (also : more ≠ "") :
    letters (text ++ more) = letters text ++ letters more := by
  simp [letters, some_, also]

/-- A line of an outline, with a line for each character of a text. -/
def spread : Nat × Content → List (Nat × Content)
  | (depth, .text text) => (letters text).map fun letter => (depth, .text letter)
  | line => [line]

end Document

open Document (letters spread)

namespace Forest

/-- A text in front of siblings, joined with a text that comes first there. -/
def joinText (text : String) : Forest Content → Forest Content
  | .cons (.text further) children rest => .cons (.text (text ++ further)) children rest
  | siblings => .cons (.text text) .nil siblings

/-- The forest with adjacent sibling texts joined. -/
def mergeTexts : Forest Content → Forest Content
  | .nil => .nil
  | .cons (.text text) .nil rest => rest.mergeTexts.joinText text
  | .cons content children rest => .cons content children.mergeTexts rest.mergeTexts

theorem joinText_joinText (text further : String) (F : Forest Content) :
    (F.joinText further).joinText text = F.joinText (text ++ further) := by
  cases F with
  | nil => rfl
  | cons content children rest => cases content <;> simp [joinText, String.append_assoc]

/-- The texts in front of a forest. -/
def putTexts (texts : List String) (F : Forest Content) : Forest Content :=
  texts.foldr (fun text behind => .cons (.text text) .nil behind) F

/-- The forest with a text for each character. -/
def splitTexts : Forest Content → Forest Content
  | .nil => .nil
  | .cons (.text text) _ rest => putTexts (letters text) rest.splitTexts
  | .cons content children rest => .cons content children.splitTexts rest.splitTexts

theorem mergeTexts_putTexts {texts : List String} (some_ : texts ≠ []) (F : Forest Content) :
    (putTexts texts F).mergeTexts = F.mergeTexts.joinText (String.join texts) := by
  induction texts with
  | nil => exact absurd rfl some_
  | cons text texts ih =>
    have front : (putTexts (text :: texts) F).mergeTexts =
        (putTexts texts F).mergeTexts.joinText text := rfl
    cases texts with
    | nil => simpa [putTexts] using front
    | cons next texts =>
      have whole : String.join (text :: next :: texts) = text ++ String.join (next :: texts) := by
        rw [String.join_cons]
      rw [front, ih (List.cons_ne_nil _ _), joinText_joinText, whole]

theorem levels_putTexts (texts : List String) (F : Forest Content) (depth : Nat) :
    (putTexts texts F).levels depth =
      texts.map (fun text => (depth, .text text)) ++ F.levels depth := by
  induction texts with
  | nil => rfl
  | cons text texts ih => simpa [putTexts, levels] using ih

variable {F G : Forest Content}

theorem mergeTexts_splitTexts (tidy : F.BlocksOnly) : F.splitTexts.mergeTexts = F.mergeTexts := by
  induction F with
  | nil => rfl
  | cons content children rest ihChildren ihRest =>
    cases content with
    | text text =>
      obtain ⟨rfl, further⟩ := tidy
      rw [splitTexts, mergeTexts_putTexts (Document.letters_ne_nil text), Document.join_letters,
        ihRest further, mergeTexts]
    | block condition =>
      simp [splitTexts, mergeTexts, ihChildren tidy.1, ihRest tidy.2]
    | declaration declared =>
      obtain ⟨rfl, further⟩ := tidy
      simp [splitTexts, mergeTexts, ihRest further]

theorem levels_splitTexts (tidy : F.BlocksOnly) (depth : Nat) :
    F.splitTexts.levels depth = (F.levels depth).flatMap spread := by
  induction F generalizing depth with
  | nil => rfl
  | cons content children rest ihChildren ihRest =>
    cases content with
    | text text =>
      obtain ⟨rfl, further⟩ := tidy
      simp [splitTexts, levels_putTexts, levels, spread, ihRest further]
    | block condition =>
      simp [splitTexts, levels, spread, ihChildren tidy.1, ihRest tidy.2]
    | declaration declared =>
      obtain ⟨rfl, further⟩ := tidy
      simp [splitTexts, levels, spread, ihRest further]

/-- Forests whose outlines agree character by character are the same once adjacent texts are joined. -/
theorem mergeTexts_eq_of_levels (tidy : F.BlocksOnly) (also : G.BlocksOnly)
    (same : (F.levels 0).flatMap spread = (G.levels 0).flatMap spread) :
    F.mergeTexts = G.mergeTexts := by
  rw [← levels_splitTexts tidy, ← levels_splitTexts also] at same
  rw [← mergeTexts_splitTexts tidy, ← mergeTexts_splitTexts also, levels_injective 0 same]

end Forest

namespace Document

open Markup (Event)

theorem OpenDeclaration.addText_append (current : OpenDeclaration) (text more : String) :
    (current.addText (text ++ more) 0).toOption =
      (current.addText text 0).toOption.bind fun later => (later.addText more 0).toOption := by
  unfold addText
  by_cases described : current.inDescription
  · simp [described, Except.toOption, String.append_assoc]
  by_cases bodied : current.keyword.hasBody
  · simp [described, bodied, Except.toOption, String.append_assoc]
  have both : Text.isAllWhiteSpace (text ++ more) =
      (Text.isAllWhiteSpace text && Text.isAllWhiteSpace more) := by
    simp [Text.isAllWhiteSpace]
  cases first : Text.isAllWhiteSpace text <;> cases second : Text.isAllWhiteSpace more <;>
    simp [described, bodied, both, first, second, Except.toOption]

namespace Sketch

/-- A text can come in two parts. -/
theorem onText_append {text more : String} (some_ : text ≠ "") (also : more ≠ "")
    (sketch : Sketch (Nat × Content)) :
    sketch.onText spread (text ++ more) =
      (sketch.onText spread text).bind fun middle => middle.onText spread more := by
  unfold onText
  cases isOpen : sketch.declarations with
  | nil =>
    simp [write, isOpen, spread, letters_append some_ also]
  | cons current outer =>
    dsimp only
    rw [current.addText_append]
    cases (current.addText text 0).toOption <;> rfl

end Sketch

end Document

end ConfigTemplate
