import ConfigTemplate.Proofs.Markup.Comments
import ConfigTemplate.Proofs.Markup.LineCount

/-!
# The pieces of a template

Comments apart, a template is cut into runs of text and tags. A reader takes the line of a tag where
its name starts, behind the blanks that follow the `<`. It takes that of a text before it looks for
the text, so the line is that of the place where the piece before it ends, and comments that are
skipped in between are not counted.

Results:
1. `Uncommented.exists_cutInto`, `CutInto.not_opensInclude`: the texts that can be cut into pieces are
   those that include no files.
2. `Reader.Arrived.nextEvent_text`, `Reader.Arrived.nextEvent_tag`: the lines of events.
-/

namespace ConfigTemplate.Markup

/-! ## Cutting a text -/

/-- What a piece of a template consists of. -/
inductive Matter where
  | text (characters : List Char)
  | tag (tag : Tag)
deriving DecidableEq, Repr

namespace Matter

/-- The event that the piece makes. -/
def event (line : Nat) : Matter → Event
  | .text characters => .text (String.ofList characters) line
  | .tag element => element.event line

/-- Whether something starts with the piece, rather than ends. -/
def starts : Matter → Bool
  | .text _ => true
  | .tag (.opening _ _ _) => true
  | .tag (.closing _) => false

end Matter

structure Piece where
  matter : Matter
  /-- The text before the piece. -/
  before : List Char
  /-- The text before the place of which a reader takes the line. -/
  noted : List Char
deriving DecidableEq, Repr

namespace Piece

/-- The line that a reader takes for that of a piece. -/
def line (piece : Piece) : Nat := 1 + lineBreaks piece.noted

/-- The event may come from the piece. What ends with a piece is not asked for its line. -/
def Makes (piece : Piece) (event : Event) : Prop :=
  ∃ line, event = piece.matter.event line ∧ (piece.matter.starts → line = piece.line)

/-- No line break stands between the start of the piece and the place of which the line is taken. -/
def Close (piece : Piece) : Prop :=
  ∃ between, (piece.noted ++ between = piece.before ∨ piece.before ++ between = piece.noted) ∧
    ∀ c ∈ between, Text.isLineBreak c = false

end Piece

/-- The pieces of a text that includes no files, behind other text. The first argument is the text up to
the end of the piece before them, and the second goes on with the comments in between. -/
inductive CutInto : List Char → List Char → List Char → List Piece → Prop where
  | nil (noted before : List Char) : CutInto noted before [] []
  | text {noted before content rest : List Char} {pieces : List Piece} (some_ : content ≠ [])
      (plain : '<' ∉ content) (ends : ∀ c ∈ rest.head?, c = '<')
      (further : CutInto (before ++ content) (before ++ content) rest pieces) :
      CutInto noted before (content ++ rest) (⟨.text content, before, noted⟩ :: pieces)
  | comment {noted before body gone rest : List Char} {pieces : List Piece}
      (upToEnd : CommentBody body) (behind : gone ++ behindComment rest = rest)
      (further : CutInto noted (before ++ (commentStart ++ (body ++ (commentEnd ++ gone))))
        (behindComment rest) pieces) :
      CutInto noted before (commentStart ++ (body ++ (commentEnd ++ rest))) pieces
  | tag {tag : Tag} {noted before blanks inner rest : List Char} {c : Char} {pieces : List Piece}
      (blank : ∀ d ∈ blanks, isBlank d) (visible : ¬ isBlank c)
      (spelled : tag.Written ('<' :: (blanks ++ c :: inner))) (ordinary : tag.opensInclude = false)
      (further : CutInto (before ++ '<' :: (blanks ++ c :: inner))
        (before ++ '<' :: (blanks ++ c :: inner)) rest pieces) :
      CutInto noted before ('<' :: (blanks ++ c :: inner) ++ rest)
        (⟨.tag tag, before, before ++ '<' :: blanks⟩ :: pieces)

/-- Whatever follows it, text in front of it is a piece of its own. -/
theorem exists_cutInto_prepend {content rest : List Char} (plain : '<' ∉ content)
    (ends : ∀ c ∈ rest.head?, c = '<') (cuts : ∀ noted before, ∃ pieces, CutInto noted before rest pieces)
    (noted before : List Char) : ∃ pieces, CutInto noted before (content ++ rest) pieces := by
  by_cases none_ : content = []
  · subst none_
    exact cuts noted before
  · obtain ⟨pieces, further⟩ := cuts (before ++ content) (before ++ content)
    exact ⟨_, .text none_ plain ends further⟩

theorem Tag.Written.exists_visible {tag : Tag} {written : List Char} (spelled : tag.Written written) :
    ∃ blanks c inner, written = '<' :: (blanks ++ c :: inner) ∧ (∀ d ∈ blanks, isBlank d) ∧
      ¬ isBlank c := by
  obtain ⟨body, rfl, lexed⟩ := spelled
  generalize tag.tokens = tokens at lexed
  cases lexed with
  | @close blanks blank => exact ⟨blanks, '>', [], rfl, blank, by decide⟩
  | @token blanks text rest token tokens blank spells =>
    obtain ⟨c, cs, rfl, visible, -⟩ := spells.not_blank
    exact ⟨blanks, c, cs ++ rest, rfl, blank, visible⟩

/-- A text that includes no files can be cut into pieces. -/
theorem Uncommented.exists_cutInto {text out : List Char} (uncommented : Uncommented text out)
    {front : List Char} (plain : '<' ∉ front) (noted before : List Char) :
    ∃ pieces, CutInto noted before (front ++ text) pieces := by
  induction uncommented generalizing front noted before with
  | nil =>
    exact exists_cutInto_prepend plain (by simp) (fun noted before => ⟨[], .nil noted before⟩) _ _
  | @char c rest out differs _ ih =>
    have longer : '<' ∉ front ++ [c] := by simp [plain, differs.symm]
    have cuts := ih longer noted before
    rwa [List.append_assoc] at cuts
  | tag spelled ordinary _ ih =>
    obtain ⟨blanks, c, inner, rfl, blank, visible⟩ := spelled.exists_visible
    refine exists_cutInto_prepend plain (by simp) (fun noted before => ?_) noted before
    obtain ⟨pieces, further⟩ := ih List.not_mem_nil _ _
    exact ⟨_, .tag blank visible spelled ordinary further⟩
  | @comment body rest out upToEnd _ ih =>
    refine exists_cutInto_prepend plain (by simp [commentStart]) (fun noted before => ?_) noted before
    obtain ⟨gone, behind⟩ := behindComment_suffix rest
    obtain ⟨pieces, further⟩ := ih List.not_mem_nil _ _
    exact ⟨_, .comment upToEnd behind further⟩

theorem CutInto.exists_uncommented {noted before text : List Char} {pieces : List Piece}
    (cut : CutInto noted before text pieces) : ∃ out, Uncommented text out := by
  induction cut with
  | nil => exact ⟨[], .nil⟩
  | text _ plain _ _ ih =>
    obtain ⟨out, further⟩ := ih
    exact ⟨_, .prepend plain further⟩
  | comment upToEnd _ _ ih =>
    obtain ⟨out, further⟩ := ih
    exact ⟨out, .comment upToEnd further⟩
  | tag _ _ spelled ordinary _ ih =>
    obtain ⟨out, further⟩ := ih
    exact ⟨_, .tag spelled ordinary further⟩

/-- A text that can be cut into pieces includes no files. -/
theorem CutInto.not_opensInclude {noted before text : List Char} {pieces : List Piece}
    (cut : CutInto noted before text pieces) : ¬ OpensInclude text := by
  obtain ⟨out, uncommented⟩ := cut.exists_uncommented
  exact fun opens => uncommented.not_opensInclude opens rfl

theorem Lexed.getLast? {body : List Char} {tokens : List Token} (lexed : Lexed body tokens) :
    body.getLast? = some '>' := by
  induction lexed with
  | close => simp
  | token _ _ _ _ ih => simp [List.getLast?_append, ih]

theorem Tag.Written.getLast? {tag : Tag} {written : List Char} (spelled : tag.Written written) :
    written.getLast? = some '>' := by
  obtain ⟨body, rfl, lexed⟩ := spelled
  rw [List.getLast?_cons, lexed.getLast?]
  rfl

/-! ## Counting the line breaks of what is read -/

theorem not_isLineBreak_of_not_isBlank {c : Char} (visible : ¬ isBlank c) :
    Text.isLineBreak c = false := by
  simp only [isBlank, Bool.or_eq_true, not_or, Bool.not_eq_true] at visible
  exact visible.2

theorem severs_cons {c : Char} (other : Text.isLineBreak c = false) (front rest : List Char) :
    Severs front (c :: rest) := by
  rintro - ⟨⟩
  cases other

/-- Where no line break is passed over, the line of a piece is the one on which it starts. -/
theorem Piece.line_of_close {piece : Piece} (close : piece.Close) :
    piece.line = 1 + lineBreaks piece.before := by
  obtain ⟨between, same, plain⟩ := close
  have severs (front : List Char) : Severs front between := by
    cases between with
    | nil => exact fun _ => nofun
    | cons c between => exact severs_cons (plain c List.mem_cons_self) front between
  rw [line]
  rcases same with same | same
  · rw [← same, lineBreaks_append (severs _), lineBreaks_eq_zero plain, Nat.add_zero]
  · rw [← same, lineBreaks_append (severs _), lineBreaks_eq_zero plain, Nat.add_zero]

theorem lineBreaks_commentStart (rest : List Char) :
    lineBreaks (commentStart ++ rest) = lineBreaks rest := by
  simp [commentStart, lineBreaks]

namespace Reader

open Markup.Symbol

variable {r middle last after : Reader}

theorem trail_tallies {tokens : List Token} (trail : Trail r tokens last) (steady : r.Steady) :
    Counts r.line r.input last.line last.input ∧ last.Steady := by
  induction trail with
  | stop r => exact ⟨.refl _ _, steady⟩
  | token found _ ih =>
    have tallies := next_tallies steady
    rw [found] at tallies
    obtain ⟨counts, final⟩ := ih tallies.steady
    exact ⟨tallies.counts.trans counts, final⟩

/-- Reading an event counts the line breaks of what it takes. -/
theorem nextEvent_tallies {event : Event} (steady : r.Steady)
    (reads : nextEvent r = (.ok (some event), after)) :
    Counts r.line r.input after.line after.input ∧ after.Steady := by
  have reaches := traced_nextEvent r
  rw [reads] at reaches
  obtain ⟨tokens, last, trail, same | ended | ⟨_, _, failed⟩⟩ := reaches
  · obtain rfl : after = last := same
    exact trail_tallies trail steady
  · obtain ⟨counts, final⟩ := trail_tallies trail steady
    have tallies := next_tallies final
    rw [ended] at tallies
    exact ⟨counts.trans tallies.counts, tallies.steady⟩
  · cases failed

/-- The line of an opening element is the one on which the reader is behind its name. -/
theorem exists_name_of_nextEvent {name : String} {attributes : Attributes} {line : Nat}
    {selfClosing : Bool}
    (reads : nextEvent r = (.ok (some (.opened name attributes line selfClosing)), after)) :
    ∃ middle last, r.next = (.ok (some .openMarkup), middle) ∧
      middle.next = (.ok (some (.identifier name)), last) ∧ line = last.line := by
  obtain ⟨_, _, lined, reads⟩ := Attempt.run_bind_eq_ok_iff.1 reads
  cases lined
  obtain ⟨first, middle, opens, reads⟩ := Attempt.run_bind_eq_ok_iff.1 reads
  split at reads
  · cases reads
  · cases reads
  · obtain ⟨event, _, reads, same⟩ := Attempt.run_bind_eq_ok_iff.1 reads
    cases same
    obtain ⟨second, last, names, reads⟩ := Attempt.run_bind_eq_ok_iff.1 reads
    refine ⟨middle, last, opens, ?_⟩
    split at reads
    · obtain ⟨third, _, -, reads⟩ := Attempt.run_bind_eq_ok_iff.1 reads
      split at reads
      · obtain ⟨_, _, -, reads⟩ := Attempt.run_bind_eq_ok_iff.1 reads
        cases reads
      · cases reads
    · obtain ⟨_, _, lined, reads⟩ := Attempt.run_bind_eq_ok_iff.1 reads
      cases lined
      obtain ⟨result, _, -, reads⟩ := Attempt.run_bind_eq_ok_iff.1 reads
      obtain ⟨stop, _, -, reads⟩ := Attempt.run_bind_eq_ok_iff.1 reads
      rcases stop with _ | stop
      · cases reads
      cases stop with
      | closeMarkup =>
        cases reads
        exact ⟨names, rfl⟩
      | slash =>
        obtain ⟨_, _, -, reads⟩ := Attempt.run_bind_eq_ok_iff.1 reads
        cases reads
        exact ⟨names, rfl⟩
      | _ => cases reads
    · cases reads
  · cases reads

/-- The `<` of a tag is a token. -/
theorem Meets.next_open {root : String} {body rest : List Char} {tokens : List Token}
    (meets : r.Meets root ('<' :: body ++ rest)) (lexed : Lexed body tokens) :
    ∃ line, r.next = (.ok (some .openMarkup), inside root line ((body ++ rest).map .char)) := by
  obtain ⟨start, same⟩ := meets
  have splits : upToElement (('<' :: body ++ rest).map .char) =
      ([], .char '<' :: (body ++ rest).map .char) := by simp [upToElement]
  have noComment := lexed.commentBody? (rest.map .char)
  rw [← List.map_append] at noComment
  obtain ⟨line, opens⟩ := Reader.next_open (.outside start _) splits noComment
  exact ⟨line, same.trans opens⟩

/-- The line behind a name is the one on which it starts. -/
theorem line_of_readInside {name : String}
    (reads : r.readInside = (.ok (some (.identifier name)), after)) :
    after.line = (blanks r.line r.input).1 := by
  unfold readInside at reads
  generalize blanks r.line r.input = skipped at reads ⊢
  obtain ⟨line, input⟩ := skipped
  dsimp only at reads ⊢
  split at reads
  · split at reads
    · cases reads
    split at reads
    · cases reads
    split at reads
    · cases reads
    split at reads
    · split at reads <;> cases reads
    split at reads
    · cases reads
      rfl
    · cases reads
  · cases reads

/-! ## Arriving at a piece -/

/-- The reader has read the front of a text and skips what is up to the rest. Its line is that of the
place where the last piece ends. -/
structure Arrived (text : List Char) (root : String) (noted before rest : List Char) (r : Reader) :
    Prop where
  whole : before ++ rest = text
  meets : r.Meets root rest
  line : r.line = 1 + lineBreaks noted
  counted : r.line + breaksAhead r.input = 1 + lineBreaks text
  steady : r.Steady

variable {text noted before rest : List Char} {root : String}

theorem arrived_ofText (text directory : String) :
    (ofText text directory).Arrived text.toList directory [] [] text.toList where
  whole := rfl
  meets := meets_outside directory 1 text.toList
  line := rfl
  counted := congrArg (1 + ·) (breaksAhead_map text.toList)
  steady := nofun

/-- Comments are not counted before a piece is read. -/
theorem Arrived.comment {body gone : List Char}
    (arrived : Arrived text root noted before (commentStart ++ (body ++ (commentEnd ++ rest))) r)
    (upToEnd : CommentBody body) (behind : gone ++ behindComment rest = rest) :
    Arrived text root noted (before ++ (commentStart ++ (body ++ (commentEnd ++ gone))))
      (behindComment rest) r where
  whole := by
    rw [← arrived.whole]
    simp only [List.append_assoc, behind]
  meets := arrived.meets.skip upToEnd
  line := arrived.line
  counted := arrived.counted
  steady := arrived.steady

/-- Behind a piece, the line is that of its end. -/
theorem Arrived.behind {written : List Char} (arrived : Arrived text root noted before (written ++ rest) r)
    (severs : Severs (before ++ written) rest) (meets : middle.Meets root rest)
    (counts : Counts r.line r.input middle.line middle.input) (steady : middle.Steady)
    (input : breaksAhead middle.input = lineBreaks rest) :
    Arrived text root (before ++ written) (before ++ written) rest middle where
  whole := by rw [List.append_assoc, arrived.whole]
  meets := meets
  line := by
    have total := counts.adds.trans arrived.counted
    rw [← arrived.whole, ← List.append_assoc, lineBreaks_append severs, input] at total
    omega
  counted := counts.adds.trans arrived.counted
  steady := steady

/-- A text has the line of the end of the piece before it. -/
theorem Arrived.nextEvent_text {content : List Char}
    (arrived : Arrived text root noted before (content ++ rest) r) (some_ : content ≠ [])
    (plain : '<' ∉ content) (ends : ∀ c ∈ rest.head?, c = '<') :
    ∃ middle, nextEvent r =
        (.ok (some (.text (String.ofList content) (1 + lineBreaks noted))), middle) ∧
      Arrived text root (before ++ content) (before ++ content) rest middle := by
  obtain ⟨middle, tail, found, meets, input, same⟩ := arrived.meets.next_text some_ plain ends
  have reads := nextEvent_of_next_text found
  obtain ⟨counts, steady⟩ := nextEvent_tallies arrived.steady reads
  rw [arrived.line] at reads
  have severs : Severs (before ++ content) rest := fun _ feed => by cases ends _ feed
  refine ⟨middle, reads, arrived.behind severs meets counts steady ?_⟩
  rw [input, breaksAhead_map]
  rcases same with rfl | rfl
  · rfl
  · exact (lineBreaks_commentStart tail).symm

/-- A tag has the line on which its name starts. -/
theorem Arrived.nextEvent_tag {tag : Tag} {blanks inner : List Char} {c : Char}
    (arrived : Arrived text root noted before ('<' :: (blanks ++ c :: inner) ++ rest) r)
    (blank : ∀ d ∈ blanks, isBlank d) (visible : ¬ isBlank c)
    (spelled : tag.Written ('<' :: (blanks ++ c :: inner))) :
    ∃ line middle, nextEvent r = (.ok (some (tag.event line)), middle) ∧
      ((Matter.tag tag).starts → line = 1 + lineBreaks (before ++ '<' :: blanks)) ∧
      Arrived text root (before ++ '<' :: (blanks ++ c :: inner))
        (before ++ '<' :: (blanks ++ c :: inner)) rest middle := by
  obtain ⟨line, final, reads⟩ := arrived.meets.nextEvent_tag spelled
  obtain ⟨counts, steady⟩ := nextEvent_tallies arrived.steady reads
  have severs : Severs (before ++ '<' :: (blanks ++ c :: inner)) rest := fun last => by
    rw [List.getLast?_append, spelled.getLast?] at last
    cases last
  refine ⟨line, _, reads, fun starts => ?_, arrived.behind severs (meets_outside root final rest)
    counts steady (breaksAhead_map rest)⟩
  cases tag with
  | closing name => cases starts
  | opening name attributes selfClosing =>
    obtain ⟨middle, last, opens, names, rfl⟩ := exists_name_of_nextEvent reads
    obtain ⟨body, ⟨⟩, lexed⟩ := spelled
    obtain ⟨start, found⟩ := arrived.meets.next_open lexed
    cases opens.symm.trans found
    have tallies := next_tallies arrived.steady
    rw [found] at tallies
    obtain ⟨later, skips⟩ := Symbol.blanks_append blank visible start ((inner ++ rest).map .char)
    have input : (blanks ++ c :: inner ++ rest).map Symbol.char =
        blanks.map .char ++ (c :: (inner ++ rest)).map .char := by simp
    have named := line_of_readInside names
    have skipped := (blanks_counts start ((blanks ++ c :: inner ++ rest).map .char)).adds
    have total := tallies.counts.adds.trans arrived.counted
    have split : text = (before ++ '<' :: blanks) ++ c :: (inner ++ rest) := by
      rw [← arrived.whole]
      simp
    dsimp only [inside] at named total
    rw [input, List.map_cons, skips] at named skipped
    rw [input] at total
    rw [split, lineBreaks_append (severs_cons (not_isLineBreak_of_not_isBlank visible) _ _)] at total
    have ahead : breaksAhead (.char c :: (inner ++ rest).map .char) = lineBreaks (c :: (inner ++ rest)) :=
      breaksAhead_map (c :: (inner ++ rest))
    dsimp only at named skipped
    rw [List.map_cons] at total
    omega

end Reader

end ConfigTemplate.Markup
