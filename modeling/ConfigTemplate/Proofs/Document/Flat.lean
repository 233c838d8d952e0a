import ConfigTemplate.Proofs.Document.Sketch
import ConfigTemplate.Proofs.Markup.Tag

/-!
# Flat templates

A template is flat if its tags include no file. It can be parsed without a reader: cut the template
into tags and the texts between them, and apply these to a sketch one after the other.

Results:
1. `Feeds.parse`: parsing comes to what feeding the text to the sketch comes to.
2. `Feeds.tree`: a flat template that leaves nothing open has a tree, with the outline of the sketch.
-/

namespace ConfigTemplate

/-! ## Steps of a parse -/

namespace Markup

namespace Reader

variable {σ : Type} {store : Store} {handler : Handler σ} {r after : Reader} {state later : σ}

theorem parse_of_end (found : nextEvent r = (.ok none, after)) :
    r.parse store handler state = (.ok (), after, state) := by
  unfold Reader.parse
  split
  · rename_i failed
    cases found.symm.trans failed
  · rename_i ended
    cases found.symm.trans ended
    rfl
  · rename_i event
    cases found.symm.trans event

/-- Behind an event the handler answers, and parsing goes on in the input or in the file that it asks
for. -/
theorem parse_event {event : Event} (found : nextEvent r = (.ok (some event), after)) :
    r.parse store handler state =
      match handler.receive event state with
      | (.error cause, later) => (.error cause, after, later)
      | (.ok none, later) => after.parse store handler later
      | (.ok (some path), later) =>
        match includeFile store after path with
        | .error cause => (.error cause, after, later)
        | .ok included => included.parse store handler later := by
  conv_lhs => unfold Reader.parse
  split
  · rename_i failed
    cases found.symm.trans failed
  · rename_i ended
    cases found.symm.trans ended
  · rename_i same
    cases found.symm.trans same
    split
    · rename_i failed
      rw [failed]
    · rename_i accepted
      rw [accepted]
    · rename_i asked
      rw [asked]
      dsimp only
      split
      · rename_i failed
        rw [failed]
      · rename_i reads
        rw [reads]

theorem parse_of_event {event : Event} (found : nextEvent r = (.ok (some event), after))
    (answer : handler.receive event state = (.ok none, later)) :
    r.parse store handler state = after.parse store handler later := by
  rw [parse_event found, answer]

end Reader

end Markup

namespace Document

open Markup (Tag Reader Symbol)

variable {α : Type} {put : Nat × Content → List α}

/-! ## Feeding a text to a sketch -/

/-- The text is cut into tags and the texts between them, and these take one sketch to another. -/
inductive Feeds (put : Nat × Content → List α) : List Char → Sketch α → Sketch α → Prop where
  | nil (sketch : Sketch α) : Feeds put [] sketch sketch
  | text {text rest : List Char} {sketch middle last : Sketch α} (some_ : text ≠ [])
      (plain : '<' ∉ text) (ends : ∀ c ∈ rest.head?, c = '<')
      (writes : sketch.onText put (String.ofList text) = some middle)
      (further : Feeds put rest middle last) : Feeds put (text ++ rest) sketch last
  | tag {tag : Tag} {written rest : List Char} {sketch middle last : Sketch α}
      (spelled : tag.Written written)
      (receives : sketch.receive put (tag.event 0) = some (none, middle))
      (further : Feeds put rest middle last) : Feeds put (written ++ rest) sketch last

namespace Feeds

variable {text : List Char} {sketch last : Sketch α}

/-- A flat text does not start with a comment. -/
theorem commentBody? (feeds : Feeds put text sketch last) :
    Symbol.commentBody? (text.map .char) = none := by
  cases feeds with
  | nil => rfl
  | @text text rest _ _ _ some_ plain =>
    obtain ⟨c, cs, rfl⟩ := List.exists_cons_of_ne_nil some_
    have differs : '<' ≠ c := fun same => plain (same ▸ List.mem_cons_self)
    simp [Symbol.commentBody?, Symbol.startWith, differs]
  | tag spelled =>
    obtain ⟨body, rfl, lexed⟩ := spelled
    simpa using lexed.commentBody? _

/-- Parsing a flat text takes the sketch of an assembly where the text takes it. -/
theorem parse (feeds : Feeds put text sketch last) (store : Store) {assembly : Assembly}
    (ordered : assembly.Ordered) (same : assembly.sketch put = sketch) {root : String} {r : Reader}
    (between : r.Between root (text.map .char)) :
    ∃ reader after, r.parse store Assembly.handler assembly = (.ok (), reader, after) ∧
      after.Ordered ∧ after.sketch put = last := by
  induction feeds generalizing assembly r with
  | nil sketch =>
    obtain ⟨after, ended⟩ := Reader.nextEvent_end between rfl
    exact ⟨after, assembly, Reader.parse_of_end ended, ordered, same⟩
  | @text text rest sketch middle last some_ plain ends writes further ih =>
    subst same
    obtain ⟨line, after, reads, behind⟩ := Reader.nextEvent_text between some_
      (Symbol.upToElement_append plain ends) further.commentBody?
    obtain ⟨later, received, tidy, reached⟩ := Assembly.receive_of_sketch put ordered
      (.text (String.ofList text) line) (Option.map_eq_some_iff.2 ⟨middle, writes, rfl⟩)
    rw [Reader.parse_of_event reads received]
    exact ih tidy reached behind
  | @tag tag written rest sketch middle last spelled receives further ih =>
    subst same
    obtain ⟨body, rfl, lexed⟩ := spelled
    have splits : Symbol.upToElement (('<' :: body ++ rest).map .char) =
        ([], .char '<' :: (body.map .char ++ rest.map .char)) := by simp [Symbol.upToElement]
    obtain ⟨line, line', reads⟩ := Reader.nextEvent_tag between lexed splits
    obtain ⟨later, received, tidy, reached⟩ := Assembly.receive_of_sketch put ordered
      (tag.event line) (by cases tag <;> exact receives)
    rw [Reader.parse_of_event reads received]
    exact ih tidy reached (.outside line' _)

/-- A flat template that leaves nothing open has a tree, and its outline is that of the sketch. -/
theorem tree {text : String} (feeds : Feeds put text.toList .empty last) (closed : last.Closed)
    (store : Store) (directory : String) :
    ∃ tree, Tree.parse store text directory = .ok tree ∧
      tree.contentLevels.flatMap put = last.outline := by
  have between : Reader.Between directory _ (Reader.ofText text directory) := .outside 1 _
  obtain ⟨reader, after, parses, -, rfl⟩ := feeds.parse store Assembly.ordered_empty rfl between
  refine ⟨after.tree, ?_, rfl⟩
  rw [Tree.parse, parses]
  exact (Assembly.finish_eq_ok_iff put).2 ⟨closed, rfl⟩

end Feeds

/-! ## Pieces of a text -/

/-- The text takes one sketch to another, whatever follows. -/
def Takes (put : Nat × Content → List α) (text : List Char) (sketch later : Sketch α) : Prop :=
  ∀ rest last, Feeds put rest later last → Feeds put (text ++ rest) sketch last

/-- The text takes one sketch to another, if an element or the end follows. -/
def Carries (put : Nat × Content → List α) (text : List Char) (sketch later : Sketch α) : Prop :=
  ∀ rest last, (∀ c ∈ rest.head?, c = '<') → Feeds put rest later last →
    Feeds put (text ++ rest) sketch last

variable {front back : List Char} {sketch middle later : Sketch α}

theorem Takes.nil (sketch : Sketch α) : Takes put [] sketch sketch := fun _ _ feeds => feeds

theorem Takes.append (first : Takes put front sketch middle) (second : Takes put back middle later) :
    Takes put (front ++ back) sketch later := by
  intro rest last feeds
  rw [List.append_assoc]
  exact first _ last (second rest last feeds)

theorem Takes.carries (takes : Takes put front sketch later) : Carries put front sketch later :=
  fun rest last _ feeds => takes rest last feeds

theorem Takes.append_carries (first : Takes put front sketch middle)
    (second : Carries put back middle later) : Carries put (front ++ back) sketch later := by
  intro rest last ends feeds
  rw [List.append_assoc]
  exact first _ last (second rest last ends feeds)

/-- A text can be followed by what starts with an element. -/
theorem Carries.append (first : Carries put front sketch middle) (starts : ∀ c ∈ back.head?, c = '<')
    (second : Carries put back middle later) : Carries put (front ++ back) sketch later := by
  intro rest last ends feeds
  rw [List.append_assoc]
  refine first _ last (fun c member => ?_) (second rest last ends feeds)
  cases back with
  | nil => exact ends c member
  | cons d back => exact starts c member

theorem carries_text {text : String} (plain : '<' ∉ text.toList)
    (writes : if text = "" then later = sketch else sketch.onText put text = some later) :
    Carries put text.toList sketch later := by
  intro rest last ends feeds
  split at writes
  · rename_i none_
    subst none_ writes
    exact feeds
  · rename_i some_
    have characters : text.toList ≠ [] := fun same =>
      some_ (String.toList_injective (same.trans String.toList_empty.symm))
    exact .text characters plain ends (by rwa [String.ofList_toList]) feeds

theorem takes_tag {tag : Tag} {written : List Char} (spelled : tag.Written written)
    (receives : sketch.receive put (tag.event 0) = some (none, later)) :
    Takes put written sketch later := fun _ _ feeds => .tag spelled receives feeds

end Document

end ConfigTemplate
