import ConfigTemplate.Proofs.Markup.Inclusion

/-!
# Comments

A comment starts at a `<!--` outside of elements and ends at the next `-->`. With it goes the rest
of its line, if nothing but spaces and tabs stands there. A reader that meets a comment goes on
behind it, but the text in front of it is a token of its own.

Results:
1. `Uncommented.unique`: a text determines what it is without its comments.
2. `Reader.Meets.skip`: how a reader gets past a comment.
3. `Reader.Meets.exists_written`: what a reader reads as an element is written as a tag.
-/

namespace ConfigTemplate.Markup

/-! ## Texts without their comments -/

/-- What ends a comment. -/
def commentEnd : List Char := ['-', '-', '>']

/-- What is left behind the end of a comment: without the rest of the line and its line break, if
only spaces and tabs stand there. -/
def behindComment (cs : List Char) : List Char :=
  match cs.dropWhile Text.isSpaceOrTab with
  | '\r' :: '\n' :: rest => rest
  | c :: rest => if Text.isLineBreak c then rest else cs
  | [] => []

/-- The body of a comment goes up to the first `-->`. -/
def CommentBody (body : List Char) : Prop := ¬ commentEnd <:+: body ++ ['-', '-']

/-- A text that includes no files, and the same text without its comments. -/
inductive Uncommented : List Char → List Char → Prop where
  | nil : Uncommented [] []
  | char {c : Char} {rest out : List Char} (plain : c ≠ '<') (further : Uncommented rest out) :
      Uncommented (c :: rest) (c :: out)
  | tag {tag : Tag} {written rest out : List Char} (spelled : tag.Written written)
      (ordinary : tag.opensInclude = false) (further : Uncommented rest out) :
      Uncommented (written ++ rest) (written ++ out)
  | comment {body rest out : List Char} (upToEnd : CommentBody body)
      (further : Uncommented (behindComment rest) out) :
      Uncommented (commentStart ++ (body ++ (commentEnd ++ rest))) out

/-- An `include` element is opened in the text, outside of its comments. -/
inductive OpensInclude : List Char → Prop where
  | here {tag : Tag} {written rest : List Char} (spelled : tag.Written written)
      (includes : tag.opensInclude) : OpensInclude (written ++ rest)
  | char {c : Char} {rest : List Char} (plain : c ≠ '<') (further : OpensInclude rest) :
      OpensInclude (c :: rest)
  | tag {tag : Tag} {written rest : List Char} (spelled : tag.Written written)
      (further : OpensInclude rest) : OpensInclude (written ++ rest)
  | comment {body rest : List Char} (upToEnd : CommentBody body)
      (further : OpensInclude (behindComment rest)) :
      OpensInclude (commentStart ++ (body ++ (commentEnd ++ rest)))

theorem behindComment_suffix (cs : List Char) : behindComment cs <:+ cs := by
  have dropped : cs.dropWhile Text.isSpaceOrTab <:+ cs := List.dropWhile_suffix _
  unfold behindComment
  split
  · rename_i same
    exact ((List.suffix_cons _ _).trans (List.suffix_cons _ _)).trans (same ▸ dropped)
  · rename_i same
    split
    · exact (List.suffix_cons _ _).trans (same ▸ dropped)
    · exact List.suffix_refl _
  · exact List.nil_suffix

theorem Uncommented.prepend {text rest out : List Char} (plain : '<' ∉ text)
    (further : Uncommented rest out) : Uncommented (text ++ rest) (text ++ out) := by
  induction text with
  | nil => exact further
  | cons c text ih =>
    obtain ⟨differs, others⟩ := List.ne_and_not_mem_of_not_mem_cons plain
    exact .char differs.symm (ih others)

theorem Uncommented.of_plain {text : List Char} (plain : '<' ∉ text) : Uncommented text text := by
  have whole := Uncommented.prepend plain .nil
  rwa [List.append_nil] at whole

theorem OpensInclude.prepend {text rest : List Char} (plain : '<' ∉ text)
    (further : OpensInclude rest) : OpensInclude (text ++ rest) := by
  induction text with
  | nil => exact further
  | cons c text ih =>
    obtain ⟨differs, others⟩ := List.ne_and_not_mem_of_not_mem_cons plain
    exact .char differs.symm (ih others)

/-! ## Skipping a comment -/

theorem CommentBody.of_cons {c : Char} {body : List Char} (upToEnd : CommentBody (c :: body)) :
    CommentBody body := fun ends => upToEnd (ends.trans (List.suffix_cons c _).isInfix)

/-- Before its end no comment ends. -/
theorem CommentBody.not_prefix {c : Char} {body : List Char} (upToEnd : CommentBody (c :: body))
    (rest : List Char) : ¬ commentEnd <+: c :: (body ++ (commentEnd ++ rest)) := by
  intro ends
  have split : c :: (body ++ (commentEnd ++ rest)) = (c :: body ++ ['-', '-']) ++ ('>' :: rest) := by
    simp [commentEnd]
  rw [split] at ends
  exact upToEnd (List.prefix_of_prefix_length_le ends (List.prefix_append _ _)
    (by simp [commentEnd])).isInfix

theorem CommentBody.unique {body other rest left : List Char} (upToEnd : CommentBody body)
    (also : CommentBody other) (same : body ++ (commentEnd ++ rest) = other ++ (commentEnd ++ left)) :
    body = other ∧ rest = left := by
  induction body generalizing other with
  | nil =>
    cases other with
    | nil => exact ⟨rfl, List.append_cancel_left same⟩
    | cons c other => exact absurd ⟨rest, same⟩ (also.not_prefix left)
  | cons c body ih =>
    cases other with
    | nil => exact absurd ⟨left, same.symm⟩ (upToEnd.not_prefix rest)
    | cons d other =>
      obtain ⟨rfl, further⟩ := List.cons.inj same
      obtain ⟨rfl, rfl⟩ := ih upToEnd.of_cons also.of_cons further
      exact ⟨rfl, rfl⟩

/-- No tag starts like a comment. -/
theorem Tag.Written.ne_comment {tag : Tag} {written rest comment : List Char}
    (spelled : tag.Written written) : written ++ rest ≠ commentStart ++ comment := by
  intro same
  obtain ⟨body, rfl, lexed⟩ := spelled
  obtain ⟨c, cs, rfl, differs⟩ := lexed.exists_cons
  exact differs (List.cons.inj (List.cons.inj same).2).1

/-- A text determines what it is without its comments. -/
theorem Uncommented.unique {text other out plain : List Char} (uncommented : Uncommented text out)
    (also : Uncommented other plain) (same : text = other) : out = plain := by
  induction uncommented generalizing other plain with
  | nil =>
    cases also with
    | nil => rfl
    | char => cases same
    | tag spelled =>
      obtain ⟨body, rfl⟩ := spelled.starts
      cases same
    | comment => cases same
  | char differs _ ih =>
    cases also with
    | nil => cases same
    | char differs' further =>
      cases same
      rw [ih further rfl]
    | tag spelled =>
      obtain ⟨body, rfl⟩ := spelled.starts
      cases same
      exact absurd rfl differs
    | comment =>
      cases same
      exact absurd rfl differs
  | tag spelled _ _ ih =>
    cases also with
    | nil =>
      obtain ⟨body, rfl⟩ := spelled.starts
      cases same
    | char differs =>
      obtain ⟨body, rfl⟩ := spelled.starts
      cases same
      exact absurd rfl differs
    | tag spelled' _ further =>
      obtain ⟨-, rfl, rfl⟩ := spelled.unique spelled' same
      rw [ih further rfl]
    | comment => exact absurd same spelled.ne_comment
  | comment upToEnd _ ih =>
    cases also with
    | nil => cases same
    | char differs =>
      cases same
      exact absurd rfl differs
    | tag spelled => exact absurd same.symm spelled.ne_comment
    | comment upToEnd' further =>
      obtain ⟨rfl, rfl⟩ := upToEnd.unique upToEnd' (List.append_cancel_left same)
      exact ih further rfl

/-- Where an `include` element is opened, there is no text without the comments. -/
theorem Uncommented.not_opensInclude {text other out : List Char}
    (uncommented : Uncommented text out) (opens : OpensInclude other) (same : text = other) :
    False := by
  induction uncommented generalizing other with
  | nil =>
    cases opens with
    | char => cases same
    | comment => cases same
    | here spelled | tag spelled =>
      obtain ⟨body, rfl⟩ := spelled.starts
      cases same
  | char differs _ ih =>
    cases opens with
    | char _ further =>
      cases same
      exact ih further rfl
    | comment =>
      cases same
      exact differs rfl
    | here spelled | tag spelled =>
      obtain ⟨body, rfl⟩ := spelled.starts
      cases same
      exact differs rfl
  | tag spelled ordinary _ ih =>
    cases opens with
    | char differs =>
      obtain ⟨body, rfl⟩ := spelled.starts
      cases same
      exact differs rfl
    | comment => exact spelled.ne_comment same
    | here spelled' includes =>
      obtain ⟨events, -, -⟩ := spelled.unique spelled' same
      rw [Tag.opensInclude_of_event events] at ordinary
      cases ordinary.symm.trans includes
    | tag spelled' further =>
      obtain ⟨-, rfl, rfl⟩ := spelled.unique spelled' same
      exact ih further rfl
  | comment upToEnd _ ih =>
    cases opens with
    | char differs =>
      cases same
      exact differs rfl
    | comment upToEnd' further =>
      obtain ⟨rfl, rfl⟩ := upToEnd.unique upToEnd' (List.append_cancel_left same)
      exact ih further rfl
    | here spelled | tag spelled => exact spelled.ne_comment same.symm

namespace Symbol

theorem comment_append {body : List Char} (upToEnd : CommentBody body) (line : Nat)
    (rest : List Char) :
    ∃ later, comment line ((body ++ (commentEnd ++ rest)).map .char) =
      (later, (commentEnd ++ rest).map .char) := by
  induction body generalizing line with
  | nil =>
    refine ⟨line, ?_⟩
    rw [List.nil_append, commentEnd, List.cons_append, List.map_cons, comment, if_pos]
    rfl
  | cons c body ih =>
    obtain ⟨later, same⟩ := ih upToEnd.of_cons
      (lineAfter line c ((body ++ (commentEnd ++ rest)).map .char))
    refine ⟨later, ?_⟩
    have goesOn : ¬ startWith ['-', '-', '>'] (.char c :: (body ++ (commentEnd ++ rest)).map .char) :=
      fun ends => upToEnd.not_prefix rest (startWith_map ends)
    rw [List.cons_append, List.map_cons, comment, if_neg goesOn, same]

theorem dropWhile_isSpaceOrTab_map (cs : List Char) :
    (cs.map Symbol.char).dropWhile isSpaceOrTab = (cs.dropWhile Text.isSpaceOrTab).map .char := by
  rw [List.dropWhile_map]
  rfl

theorem afterComment_map (line : Nat) (cs : List Char) :
    ∃ later, afterComment line (cs.map .char) = (later, (behindComment cs).map .char) := by
  unfold afterComment behindComment
  rw [dropWhile_isSpaceOrTab_map]
  split
  · rename_i rest same
    match cs.dropWhile Text.isSpaceOrTab, same with
    | c :: d :: rest, same =>
      cases same
      exact ⟨line + 1, rfl⟩
  · rename_i c rest other same
    match cs.dropWhile Text.isSpaceOrTab, same with
    | c :: rest, same =>
      cases same
      have right : (match c :: rest with
          | '\r' :: '\n' :: rest => rest
          | c :: rest => if Text.isLineBreak c then rest else cs
          | [] => []) = if Text.isLineBreak c then rest else cs := by
        split
        · rename_i crlf
          cases crlf
          exact (other _ rfl rfl).elim
        · rename_i single
          cases single
          rfl
        · rename_i empty
          cases empty
      rw [right]
      by_cases ends : Text.isLineBreak c
      · exact ⟨line + 1, by rw [if_pos ends, if_pos ends]⟩
      · exact ⟨line, by rw [if_neg ends, if_neg ends]⟩
  · rename_i other single
    match cs.dropWhile Text.isSpaceOrTab, other, single with
    | [], _, _ => exact ⟨line, rfl⟩
    | c :: rest, other, single => exact absurd rfl (single c (rest.map .char))

/-- Skipping a comment leaves what is behind it. -/
theorem skipComment_append {body : List Char} (upToEnd : CommentBody body) (line : Nat)
    (rest : List Char) :
    ∃ later, skipComment line ((body ++ (commentEnd ++ rest)).map .char) =
      (later, some ((behindComment rest).map .char)) := by
  obtain ⟨middle, ends⟩ := comment_append upToEnd line rest
  obtain ⟨later, skips⟩ := afterComment_map middle rest
  refine ⟨later, ?_⟩
  rw [skipComment, ends]
  show ((afterComment middle (rest.map .char)).map id some) = _
  rw [skips]
  rfl

/-- Behind the start of a comment, the comment has an end or goes on up to the end of the text. -/
theorem exists_commentBody (cs : List Char) :
    (∃ body rest, cs = body ++ (commentEnd ++ rest) ∧ CommentBody body) ∨
      ∀ line, ∃ later, comment line (cs.map .char) = (later, []) := by
  induction cs with
  | nil => exact .inr fun line => ⟨line, rfl⟩
  | cons c cs ih =>
    by_cases ends : commentEnd <+: c :: cs
    · obtain ⟨rest, same⟩ := ends
      exact .inl ⟨[], rest, same.symm, by unfold CommentBody; decide⟩
    rcases ih with ⟨body, rest, rfl, upToEnd⟩ | endless
    · refine .inl ⟨c :: body, rest, rfl, fun inside => ?_⟩
      rcases List.infix_cons_iff.1 inside with starts | later
      · have further : c :: (body ++ ['-', '-']) <+: c :: (body ++ (commentEnd ++ rest)) :=
          ⟨'>' :: rest, by simp [commentEnd]⟩
        exact ends (starts.trans further)
      · exact upToEnd later
    · refine .inr fun line => ?_
      obtain ⟨later, same⟩ := endless (lineAfter line c (cs.map .char))
      refine ⟨later, ?_⟩
      have goesOn : ¬ Symbol.startWith ['-', '-', '>'] ((c :: cs).map .char) := fun starts =>
        ends (Symbol.startWith_map starts)
      exact (if_neg goesOn).trans same

end Symbol

/-! ## Reading past a comment -/

theorem commentBody?_start (rest : List Char) :
    Symbol.commentBody? ((commentStart ++ rest).map .char) = some (rest.map .char) := by
  simp [Symbol.commentBody?, Symbol.startWith, commentStart]

theorem exists_of_commentBody? {rest : List Char} {symbols : List Symbol}
    (starts : Symbol.commentBody? (rest.map .char) = some symbols) :
    ∃ tail, rest = commentStart ++ tail := by
  unfold Symbol.commentBody? at starts
  split at starts
  · rename_i begins
    obtain ⟨tail, same⟩ := Symbol.startWith_map begins
    exact ⟨tail, same.symm⟩
  · cases starts

namespace Reader

variable {root : String} {text rest body : List Char} {r after : Reader}

/-- The reader finds next what a reader before these characters finds. -/
def Meets (root : String) (cs : List Char) (r : Reader) : Prop :=
  ∃ line, r.next = (outside root line (cs.map .char)).next

theorem meets_outside (root : String) (line : Nat) (cs : List Char) :
    Meets root cs (outside root line (cs.map .char)) := ⟨line, rfl⟩

/-- Outside of elements it makes no difference to a reader whether it has seen already that no text
comes first. -/
theorem meets_of_between {cs : List Char} (between : Between root (cs.map .char) r)
    (element : Symbol.commentBody? (cs.map .char) = none) : Meets root cs r := by
  generalize input : cs.map Symbol.char = symbols at between element
  cases between with
  | outside line => exact ⟨line, by rw [input]⟩
  | finished line =>
    have scans : Symbol.literal line [] = ⟨[], line, []⟩ := rfl
    refine ⟨line, ?_⟩
    rw [input]
    exact (readOutside_end (r := outside root line []) scans).symm
  | atElement line others =>
    have scans : Symbol.literal line (.char '<' :: others) = ⟨[], line, .char '<' :: others⟩ := rfl
    refine ⟨line, ?_⟩
    rw [input]
    exact (readOutside_element (r := outside root line (.char '<' :: others)) scans element).symm

/-- Outside of elements, a reader finds the text before a comment, or what is behind the comment. -/
theorem readOutside_comment {later : Nat} {input tail : List Symbol}
    (scans : Symbol.literal r.line r.input = ⟨text, later, input⟩)
    (starts : Symbol.commentBody? input = some tail) {line : Nat} {left : Option (List Symbol)}
    (skips : Symbol.skipComment later tail = (line, left)) :
    r.readOutside =
      if text = [] then
        match left with
        | none => r.cutOff line .comment
        | some left => readOutside { r with input := left, line, mode := .outside }
      else
        (.ok (some (.text (String.ofList text))),
          { r with input := tail, line := later, mode := .comment }) := by
  rw [readOutside, scans]
  dsimp only
  split
  · rename_i found
    cases starts.symm.trans found
    split
    · split
      · rename_i endless
        cases skips.symm.trans endless
        rfl
      · rename_i skipped
        cases skips.symm.trans skipped
        rfl
    · rfl
  · rename_i none_
    cases starts.symm.trans none_

/-- In a comment a reader meets what it meets before that comment. -/
theorem meets_comment (root : String) (line : Nat) (tail : List Char) :
    Meets root (commentStart ++ tail) ⟨tail.map .char, root, line, .comment, []⟩ := by
  obtain ⟨later, left, skips⟩ : ∃ later left,
      Symbol.skipComment line (tail.map .char) = (later, left) := ⟨_, _, rfl⟩
  let start := outside root line ((commentStart ++ tail).map .char)
  have scans : Symbol.literal start.line start.input = ⟨[], line, start.input⟩ := rfl
  have reads : start.next = _ := readOutside_comment scans (commentBody?_start tail) skips
  refine ⟨line, ?_⟩
  rw [reads, next, read, skips]
  cases left <;> rfl

/-- Behind the text before an element or a comment, or before the end, a reader meets what follows. It
has read no more than that text, and the `<!--` of the comment. -/
theorem Meets.next_text (meets : Meets root (text ++ rest) r) (some_ : text ≠ [])
    (plain : '<' ∉ text) (ends : ∀ c ∈ rest.head?, c = '<') :
    ∃ middle tail, r.next = (.ok (some (.text (String.ofList text))), middle) ∧
      Meets root rest middle ∧ middle.input = tail.map .char ∧
      (rest = tail ∨ rest = commentStart ++ tail) := by
  obtain ⟨line, same⟩ := meets
  have splits : Symbol.upToElement ((text ++ rest).map .char) = (text, rest.map .char) :=
    Symbol.upToElement_append plain ends
  rcases starts : Symbol.commentBody? (rest.map .char) with _ | symbols
  · obtain ⟨middle, found, behind⟩ := Reader.next_text (.outside line _) some_ splits starts
    have input : middle.input = rest.map .char := by
      generalize rest.map Symbol.char = input at behind
      cases behind <;> rfl
    exact ⟨middle, rest, same.trans found, meets_of_between behind starts, input, .inl rfl⟩
  · obtain ⟨tail, rfl⟩ := exists_of_commentBody? starts
    obtain ⟨later, scans⟩ := Symbol.literal_eq line ((text ++ (commentStart ++ tail)).map .char)
    rw [splits] at scans
    have reads := readOutside_comment (r := outside root line _) scans (commentBody?_start tail) rfl
    rw [if_neg some_] at reads
    exact ⟨_, tail, same.trans reads, meets_comment root later tail, rfl, .inr rfl⟩

/-- A comment that comes next makes no difference. -/
theorem Meets.skip (meets : Meets root (commentStart ++ (body ++ (commentEnd ++ rest))) r)
    (upToEnd : CommentBody body) : Meets root (behindComment rest) r := by
  obtain ⟨line, same⟩ := meets
  obtain ⟨later, skips⟩ := Symbol.skipComment_append upToEnd line rest
  refine ⟨later, same.trans ?_⟩
  let start := outside root line ((commentStart ++ (body ++ (commentEnd ++ rest))).map .char)
  have scans : Symbol.literal start.line start.input = ⟨[], line, start.input⟩ := rfl
  exact readOutside_comment scans (commentBody?_start _) skips

theorem Meets.next_end (meets : Meets root [] r) : ∃ after, r.next = (.ok none, after) := by
  obtain ⟨line, same⟩ := meets
  obtain ⟨after, ended⟩ := Reader.next_end (.outside line []) rfl
  exact ⟨after, same.trans ended⟩

/-! ## Events -/

theorem nextEvent_of_next_text {text : String} {after : Reader}
    (found : r.next = (.ok (some (.text text)), after)) :
    nextEvent r = (.ok (some (.text text r.line)), after) := by
  simp only [nextEvent, currentLine, Attempt.run_bind, token, found]
  rfl

theorem Meets.nextEvent_end (meets : Meets root [] r) :
    ∃ after, nextEvent r = (.ok none, after) := by
  obtain ⟨after, ended⟩ := meets.next_end
  refine ⟨after, ?_⟩
  simp only [nextEvent, currentLine, Attempt.run_bind, token, ended]
  rfl

/-- A reader that meets a tag reads it. -/
theorem Meets.nextEvent_tag {written : List Char} (meets : Meets root (written ++ rest) r)
    {tag : Tag} (spelled : tag.Written written) :
    ∃ line final, nextEvent r = (.ok (some (tag.event line)), outside root final (rest.map .char)) := by
  obtain ⟨start, same⟩ := meets
  obtain ⟨body, rfl, lexed⟩ := spelled
  have splits : Symbol.upToElement (('<' :: body ++ rest).map .char) =
      ([], .char '<' :: (body.map .char ++ rest.map .char)) := by simp [Symbol.upToElement]
  have between : Between root _ (outside root start (('<' :: body ++ rest).map .char)) :=
    .outside start _
  obtain ⟨middle, opens, ahead⟩ := next_element between lexed splits
  obtain ⟨line, after, reads, final, rfl⟩ := element_ahead ahead
  refine ⟨line, final, ?_⟩
  simp only [nextEvent, currentLine, Attempt.run_bind, token, same, opens, reads]
  rfl

/-- A comment without an end cannot be read. -/
theorem Meets.endless (meets : Meets root (commentStart ++ rest) r)
    (endless : ∀ line, ∃ later, Symbol.comment line (rest.map .char) = (later, [])) :
    ∃ cause after, nextEvent r = (.error cause, after) := by
  obtain ⟨line, same⟩ := meets
  obtain ⟨later, cut⟩ := endless line
  let start := outside root line ((commentStart ++ rest).map .char)
  have scans : Symbol.literal start.line start.input = ⟨[], line, start.input⟩ := rfl
  have skips : Symbol.skipComment line (rest.map .char) = (later, none) := by
    rw [Symbol.skipComment, cut]
  have reads : start.next = start.cutOff later .comment :=
    readOutside_comment scans (commentBody?_start rest) skips
  rw [reads] at same
  refine ⟨.unfinished later .comment, (start.cutOff later .comment).2, ?_⟩
  simp only [nextEvent, currentLine, Attempt.run_bind, token, same]
  rfl

/-! ## Tags that are read -/

theorem exists_of_expectClose {fault : Fault} (reads : expectClose fault r = (.ok (), after)) :
    r.next = (.ok (some .closeMarkup), after) := by
  obtain ⟨found, middle, first, further⟩ := Attempt.run_bind_eq_ok_iff.1 reads
  split at further
  · cases further
    exact first
  · cases further

theorem trail_of_attributeValue {name value : String}
    (reads : attributeValue name r = (.ok value, after)) :
    Trail r [.equals, .quoted value] after := by
  obtain ⟨found, middle, first, reads⟩ := Attempt.run_bind_eq_ok_iff.1 reads
  split at reads
  · obtain ⟨found, last, second, reads⟩ := Attempt.run_bind_eq_ok_iff.1 reads
    split at reads
    · cases reads
      exact .token first (.token second (.stop after))
    · cases reads
  · cases reads

theorem trail_of_attributesFrom {found result : Attributes} {stop : Token} {last : Reader}
    (reads : attributesFrom found r = (.ok result, after))
    (again : after.next = (.ok (some stop), last)) :
    ∃ attributes, Trail r (Tag.attributeTokens attributes ++ [stop]) last := by
  fun_induction attributesFrom found r with
  | case1 => cases reads
  | case2 => cases reads
  | case3 found r name middle same value later valued ih =>
    obtain ⟨attributes, trail⟩ := ih reads
    exact ⟨(name, value) :: attributes,
      .token same ((trail_of_attributeValue valued).append trail)⟩
  | case4 found r other middle noName same =>
    cases reads
    cases again
    exact ⟨[], .token same (.stop _)⟩
  | case5 found r middle same =>
    cases reads
    cases (next_of_next_eq_none same).symm.trans again

/-- An element that is read is a tag, token by token. -/
theorem trail_of_element {event : Event} (reads : element r = (.ok event, after)) :
    ∃ tag : Tag, Trail r tag.tokens after := by
  obtain ⟨found, middle, first, reads⟩ := Attempt.run_bind_eq_ok_iff.1 reads
  split at reads
  · obtain ⟨found, last, second, reads⟩ := Attempt.run_bind_eq_ok_iff.1 reads
    split at reads
    · rename_i name
      obtain ⟨_, end_, closes, reads⟩ := Attempt.run_bind_eq_ok_iff.1 reads
      cases reads
      exact ⟨.closing name, .token first (.token second
        (.token (exists_of_expectClose closes) (.stop _)))⟩
    · cases reads
  · rename_i name
    obtain ⟨_, _, lined, reads⟩ := Attempt.run_bind_eq_ok_iff.1 reads
    cases lined
    obtain ⟨result, middle, collected, reads⟩ := Attempt.run_bind_eq_ok_iff.1 reads
    obtain ⟨stop, last, again, reads⟩ := Attempt.run_bind_eq_ok_iff.1 reads
    rcases stop with _ | stop
    · cases reads
    obtain ⟨attributes, trail⟩ := trail_of_attributesFrom collected again
    cases stop with
    | closeMarkup =>
      cases reads
      exact ⟨.opening name attributes false, .token first trail⟩
    | slash =>
      obtain ⟨_, end_, closes, reads⟩ := Attempt.run_bind_eq_ok_iff.1 reads
      cases reads
      have whole := trail.append (.token (exists_of_expectClose closes) (.stop _))
      rw [List.append_assoc] at whole
      exact ⟨.opening name attributes true, .token first whole⟩
    | _ => cases reads
  · cases reads

/-- Tokens that are read up to the `>` of an element are written there. -/
theorem lexed_of_trail {line : Nat} {cs : List Char} {tokens : List Token}
    (trail : Trail (inside root line (cs.map .char)) (tokens ++ [.closeMarkup]) after)
    (inner : .closeMarkup ∉ tokens) :
    ∃ body rest, cs = body ++ rest ∧ Lexed body (tokens ++ [.closeMarkup]) := by
  induction tokens generalizing line cs with
  | nil =>
    cases trail with
    | token found _ =>
      obtain ⟨blanks, blank, ⟨-, rest, later, rfl, -⟩ | ⟨text, rest, later, spells, -⟩⟩ :=
        spelled_of_readInside found
      · exact ⟨blanks ++ ['>'], rest, by simp, .close blank⟩
      · exact absurd rfl spells.ne_closeMarkup
  | cons first tokens ih =>
    obtain ⟨other, inner⟩ := List.ne_and_not_mem_of_not_mem_cons inner
    cases trail with
    | token found further =>
      obtain ⟨blanks, blank, ⟨same, -⟩ | ⟨text, rest, later, spells, rfl, ends, rfl⟩⟩ :=
        spelled_of_readInside found
      · exact absurd same.symm other
      · obtain ⟨body, behind, rfl, lexed⟩ := ih further inner
        refine ⟨blanks ++ (text ++ body), behind, by simp,
          .token blank spells (fun name same c head => ?_) lexed⟩
        obtain ⟨d, ds, rfl, -⟩ := lexed.exists_cons
        exact ends name same c head

end Reader

/-- Only the last token of a tag is the `>`. -/
theorem Tag.tokens_eq (tag : Tag) :
    ∃ tokens, tag.tokens = tokens ++ [.closeMarkup] ∧ .closeMarkup ∉ tokens := by
  cases tag with
  | closing name => exact ⟨[.slash, .identifier name], rfl, by simp⟩
  | opening name attributes selfClosing =>
    cases selfClosing with
    | false =>
      exact ⟨.identifier name :: attributeTokens attributes, rfl, by simp [attributeTokens]⟩
    | true =>
      exact ⟨.identifier name :: (attributeTokens attributes ++ [.slash]), by simp [tokens],
        by simp [attributeTokens]⟩

/-- A reader that meets an element reads it only if it is a tag. -/
theorem Reader.Meets.exists_written {root : String} {cs : List Char} {r after : Reader}
    {found : Option Event} (meets : r.Meets root ('<' :: cs))
    (noComment : Symbol.commentBody? (('<' :: cs).map .char) = none)
    (reads : nextEvent r = (.ok found, after)) :
    ∃ tag written rest, '<' :: cs = written ++ rest ∧ Tag.Written tag written := by
  obtain ⟨start, same⟩ := meets
  have splits : Symbol.upToElement (('<' :: cs).map .char) = ([], .char '<' :: cs.map .char) := by
    simp [Symbol.upToElement]
  obtain ⟨line, opens⟩ := next_open (.outside start _) splits noComment
  rw [opens] at same
  simp only [nextEvent, currentLine, Attempt.run_bind, token, same] at reads
  generalize read : element (inside root line (cs.map .char)) = outcome at reads
  obtain ⟨cause | event, later⟩ := outcome
  · cases reads
  · obtain ⟨tag, trail⟩ := trail_of_element read
    obtain ⟨tokens, ends, inner⟩ := tag.tokens_eq
    rw [ends] at trail
    obtain ⟨body, rest, rfl, lexed⟩ := lexed_of_trail trail inner
    exact ⟨tag, '<' :: body, rest, rfl, body, rfl, ends ▸ lexed⟩

end ConfigTemplate.Markup
