import ConfigTemplate.Proofs.Markup.Tag

/-!
# Texts that can be read to their end

A text without comments can be read to its end if it is cut into characters outside of elements and
into elements, each of which is written as the tokens that a reader finds in it. No other text can.

Results:
1. `Reader.spelled_of_readInside`: what is read inside of an element is written there.
2. `readsToEnd_iff_lexable`: a text can be read to its end just if it is cut in this way.
-/

namespace ConfigTemplate.Markup

/-- A text is cut into characters outside of elements, and elements. -/
inductive Lexable : List Char → Prop where
  | nil : Lexable []
  | char {c : Char} {rest : List Char} (plain : c ≠ '<') (further : Lexable rest) :
      Lexable (c :: rest)
  | element {body rest : List Char} {tokens : List Token} (lexed : Lexed body tokens)
      (further : Lexable rest) : Lexable ('<' :: (body ++ rest))

theorem Lexable.of_plain {text : List Char} (plain : '<' ∉ text) : Lexable text := by
  induction text with
  | nil => exact .nil
  | cons c text ih =>
    rw [List.mem_cons, not_or] at plain
    exact .char (Ne.symm plain.1) (ih plain.2)

theorem Lexable.of_lexed {body : List Char} {tokens : List Token} (lexed : Lexed body tokens) :
    Lexable ('<' :: body) := by
  have whole := Lexable.element lexed .nil
  rwa [List.append_nil] at whole

theorem Lexable.append {text rest : List Char} (lexable : Lexable text) (further : Lexable rest) :
    Lexable (text ++ rest) := by
  induction lexable with
  | nil => exact further
  | char plain _ ih => exact .char plain ih
  | element lexed _ ih =>
    rw [List.cons_append, List.append_assoc]
    exact .element lexed ih

theorem Lexable.of_cons {c : Char} {rest : List Char} (lexable : Lexable (c :: rest)) (plain : c ≠ '<') :
    Lexable rest := by
  cases lexable with
  | char _ further => exact further
  | element => exact absurd rfl plain

theorem Lexable.of_append {text rest : List Char} (plain : '<' ∉ text)
    (lexable : Lexable (text ++ rest)) :    Lexable rest := by
  induction text with
  | nil => exact lexable
  | cons c text ih =>
    rw [List.mem_cons, not_or] at plain
    exact ih plain.2 (lexable.of_cons (Ne.symm plain.1))

/-! ## What scanning finds -/

namespace Symbol

theorem blanks_map (line : Nat) (cs : List Char) :
    ∃ front rest later, cs = front ++ rest ∧ (∀ c ∈ front, isBlank c) ∧
      blanks line (cs.map .char) = (later, rest.map .char) := by
  induction cs generalizing line with
  | nil => exact ⟨[], [], line, rfl, nofun, rfl⟩
  | cons c cs ih =>
    by_cases blank : Text.isSpaceOrTab c || Text.isLineBreak c
    · obtain ⟨front, rest, later, rfl, blanks_, same⟩ :=
        ih (lineAfter line c (cs.map .char))
      refine ⟨c :: front, rest, later, rfl, ?_, ?_⟩
      · exact List.forall_mem_cons.2 ⟨blank, blanks_⟩
      · rw [List.map_cons, blanks, if_pos blank, same]
    · exact ⟨[], c :: cs, line, rfl, nofun, by rw [List.map_cons, blanks, if_neg blank]⟩

theorem word_map (line : Nat) (cs : List Char) :
    ∃ front rest, cs = front ++ rest ∧ (∀ c ∈ front, Text.isWordPart c) ∧
      (∀ c ∈ rest.head?, ¬ Text.isWordPart c) ∧
      word line (cs.map .char) = ⟨front, line, rest.map .char⟩ := by
  induction cs with
  | nil => exact ⟨[], [], rfl, nofun, nofun, rfl⟩
  | cons c cs ih =>
    by_cases part : Text.isWordPart c
    · obtain ⟨front, rest, rfl, parts, ends, same⟩ := ih
      refine ⟨c :: front, rest, rfl, List.forall_mem_cons.2 ⟨part, parts⟩, ends, ?_⟩
      rw [List.map_cons, word, if_pos part, same]
      rfl
    · refine ⟨[], c :: cs, rfl, nofun, ?_, by rw [List.map_cons, word, if_neg part]⟩
      rintro _ ⟨⟩
      exact part

/-- A value that has an end is written before it. -/
theorem quoted_map (line : Nat) (cs : List Char) {value : Scan} {first : Symbol}
    {others : List Symbol} (scans : quoted false line (cs.map .char) = value)
    (ends : value.rest = first :: others) :
    ∃ raw rest, cs = raw ++ '"' :: rest ∧ Escaped raw value.text ∧ others = rest.map .char := by
  cases cs with
  | nil =>
    subst scans
    cases ends
  | cons c cs =>
    rw [List.map_cons, quoted, if_neg Bool.false_ne_true] at scans
    split at scans
    · rename_i quote
      subst quote scans
      cases ends
      exact ⟨[], cs, rfl, .nil, rfl⟩
    rename_i quote
    split at scans
    · rename_i backslash
      subst backslash
      cases cs with
      | nil =>
        subst scans
        cases ends
      | cons d cs =>
        rw [List.map_cons, quoted, if_pos rfl] at scans
        subst scans
        obtain ⟨raw, rest, rfl, escaped, same⟩ := quoted_map _ cs rfl ends
        exact ⟨'\\' :: d :: raw, rest, rfl, .escaped escaped, same⟩
    · rename_i backslash
      subst scans
      obtain ⟨raw, rest, rfl, escaped, same⟩ := quoted_map _ cs rfl ends
      exact ⟨c :: raw, rest, rfl, .plain quote backslash escaped, same⟩

end Symbol

/-! ## What reading finds -/

namespace Reader

variable {root : String}

/-- What is read inside of an element is written there: the `>` at its end, or a token. -/
theorem spelled_of_readInside {line : Nat} {cs : List Char} {token : Token} {after : Reader}
    (reads : (inside root line (cs.map .char)).readInside = (.ok (some token), after)) :
    ∃ blanks, (∀ c ∈ blanks, isBlank c) ∧
      ((token = .closeMarkup ∧ ∃ rest later, cs = blanks ++ '>' :: rest ∧
          after = outside root later (rest.map .char)) ∨
        ∃ text rest later, Spells text token ∧ cs = blanks ++ (text ++ rest) ∧
          (∀ name, token = .identifier name → ∀ c ∈ rest.head?, ¬ Text.isWordPart c) ∧
          after = inside root later (rest.map .char)) := by
  obtain ⟨front, rest, later, rfl, blank, skips⟩ := Symbol.blanks_map line cs
  refine ⟨front, blank, ?_⟩
  simp only [readInside, inside, skips] at reads
  cases rest with
  | nil => cases reads
  | cons c rest =>
    simp only [List.map_cons] at reads
    split at reads
    · rename_i same
      subst same
      cases reads
      exact .inr ⟨_, rest, later, .equals, rfl, by simp, rfl⟩
    split at reads
    · rename_i same
      subst same
      cases reads
      exact .inr ⟨_, rest, later, .slash, rfl, by simp, rfl⟩
    split at reads
    · rename_i same
      subst same
      cases reads
      exact .inl ⟨rfl, rest, later, rfl, rfl⟩
    split at reads
    · rename_i same
      subst same
      split at reads
      · cases reads
      · rename_i first others ends
        cases reads
        obtain ⟨raw, behind, rfl, escaped, rfl⟩ := Symbol.quoted_map later rest rfl ends
        exact .inr ⟨_, behind, _, .quoted escaped, by simp, by simp, rfl⟩
    split at reads
    · rename_i start
      obtain ⟨parts, behind, rfl, all, ends, scans⟩ := Symbol.word_map later rest
      rw [scans] at reads
      cases reads
      exact .inr ⟨_, behind, later, .identifier start all, rfl, fun _ _ => ends, rfl⟩
    · cases reads

theorem readInside_ne_none {r after : Reader} : r.readInside ≠ (.ok none, after) := by
  intro reads
  unfold readInside at reads
  split at reads
  dsimp only at reads
  repeat' split at reads
  all_goals cases reads

end Reader

/-! ## What is read to the end -/

/-- What starts a comment. -/
def commentStart : List Char := ['<', '!', '-', '-']

theorem Symbol.startWith_map {front cs : List Char} (starts : startWith front (cs.map .char)) :
    front <+: cs := by
  induction front generalizing cs with
  | nil => exact List.nil_prefix
  | cons c front ih =>
    cases cs with
    | nil => cases starts
    | cons d cs =>
      simp only [List.map_cons, startWith, Bool.and_eq_true, beq_iff_eq] at starts
      obtain ⟨rfl, starts⟩ := starts
      exact (List.prefix_cons_inj c).2 (ih starts)

theorem Symbol.commentBody?_map {cs : List Char} (free : ¬ commentStart <:+: cs) :
    commentBody? (cs.map .char) = none :=
  if_neg fun starts => free (startWith_map starts).isInfix

namespace Reader

variable {root : String}

/-- Between elements there is nothing but characters left, or the characters before an element are
read, or the `<` of one. -/
theorem next_between {r : Reader} {cs : List Char} (between : Between root (cs.map .char) r)
    (free : ¬ commentStart <:+: cs) :
    '<' ∉ cs ∨
      (∃ text left content middle, cs = text ++ left ∧ '<' ∉ text ∧
        r.next = (.ok (some content), middle) ∧ Between root (left.map .char) middle) ∨
      ∃ rest line, cs = '<' :: rest ∧
        r.next = (.ok (some .openMarkup), inside root line (rest.map .char)) := by
  by_cases element : '<' ∈ cs
  · obtain ⟨text, rest, rfl, plain⟩ := List.eq_append_cons_of_mem element
    have ends : ∀ c ∈ ('<' :: rest).head?, c = '<' := by simp
    have scans := Symbol.upToElement_append plain ends
    have noComment : Symbol.commentBody? (('<' :: rest).map .char) = none :=
      Symbol.commentBody?_map fun starts => free (starts.trans (List.suffix_append _ _).isInfix)
    by_cases blank : text = []
    · subst blank
      obtain ⟨line, found⟩ := next_open between scans noComment
      exact .inr (.inr ⟨rest, line, rfl, found⟩)
    · obtain ⟨after, found, further⟩ := next_text between blank scans noComment
      exact .inr (.inl ⟨text, _, _, after, rfl, plain, found, further⟩)
  · exact .inl element

/-- Between elements a text that is read to its end is cut into characters and elements. Inside of
an element this holds behind the end of that element. -/
theorem cuts_of_trail {r last after : Reader} {read : List Token} (trail : Trail r read last)
    (ended : last.next = (.ok none, after)) {cs : List Char} (free : ¬ commentStart <:+: cs) :
    (Between root (cs.map .char) r → Lexable cs) ∧
      ∀ line, r = inside root line (cs.map .char) →
        ∃ body rest tokens, cs = body ++ rest ∧ Lexed body tokens ∧ Lexable rest := by
  induction trail generalizing cs with
  | stop r =>
    refine ⟨fun between => ?_, ?_⟩
    · rcases next_between between free with plain | ⟨_, _, _, _, -, -, found, -⟩ | ⟨_, _, -, found⟩
      · exact .of_plain plain
      · cases ended.symm.trans found
      · cases ended.symm.trans found
    · rintro line rfl
      exact absurd ended readInside_ne_none
  | @token r middle last first others found further ih =>
    refine ⟨fun between => ?_, ?_⟩
    · rcases next_between between free with
        plain | ⟨text, left, content, _, rfl, plain, same, behind⟩ | ⟨rest, line, rfl, same⟩
      · exact .of_plain plain
      · cases found.symm.trans same
        have shorter : ¬ commentStart <:+: left := fun starts =>
          free (starts.trans (List.suffix_append text left).isInfix)
        exact (Lexable.of_plain plain).append ((ih ended shorter).1 behind)
      · cases found.symm.trans same
        have shorter : ¬ commentStart <:+: rest := fun starts =>
          free (starts.trans (List.suffix_cons '<' rest).isInfix)
        obtain ⟨body, behind, tokens, rfl, lexed, lexable⟩ := (ih ended shorter).2 line rfl
        exact .element lexed lexable
    · rintro line rfl
      obtain ⟨blanks, blank, ⟨rfl, rest, later, rfl, rfl⟩ |
        ⟨text, rest, later, spells, rfl, ends, rfl⟩⟩ := spelled_of_readInside found
      · have shorter : ¬ commentStart <:+: rest := fun starts => free (starts.trans
          ((List.suffix_cons '>' rest).trans (List.suffix_append blanks _)).isInfix)
        refine ⟨blanks ++ ['>'], rest, _, by simp, .close blank, ?_⟩
        exact (ih ended shorter).1 (.outside later _)
      · have shorter : ¬ commentStart <:+: rest := fun starts => free (starts.trans
          ((List.suffix_append text rest).trans (List.suffix_append blanks _)).isInfix)
        obtain ⟨body, behind, tokens, rfl, lexed, lexable⟩ := (ih ended shorter).2 later rfl
        refine ⟨_, behind, _, by simp, .token blank spells (fun name same c head => ?_) lexed, lexable⟩
        obtain ⟨d, ds, rfl, -⟩ := lexed.exists_cons
        exact ends name same c head

end Reader

/-! ## What can be read to the end -/

namespace Reader

variable {root : String} {r middle : Reader}

/-- The tokens of the reader can be read one after the other up to the end of the input. -/
def ReadsToEnd (r : Reader) : Prop :=
  ∃ tokens last after, Trail r tokens last ∧ last.next = (.ok none, after)

theorem ReadsToEnd.token {first : Token} (found : r.next = (.ok (some first), middle))
    (further : middle.ReadsToEnd) : r.ReadsToEnd := by
  obtain ⟨tokens, last, after, trail, ended⟩ := further
  exact ⟨first :: tokens, last, after, .token found trail, ended⟩

/-- An element can be read, if what is behind it can. -/
theorem readsToEnd_of_element {body rest : List Char} {tokens : List Token}
    (lexed : Lexed body tokens) (between : Between root (('<' :: (body ++ rest)).map .char) r)
    (behind : ∀ line, (outside root line (rest.map .char)).ReadsToEnd) : r.ReadsToEnd := by
  have splits : Symbol.upToElement (('<' :: (body ++ rest)).map .char) =
      ([], .char '<' :: (body.map .char ++ rest.map .char)) := by simp [Symbol.upToElement]
  obtain ⟨inside, opens, ahead⟩ := next_element between lexed splits
  obtain ⟨line, trail⟩ := ahead.trail
  obtain ⟨others, last, after, further, ended⟩ := behind line
  exact .token opens ⟨_, last, after, trail.append further, ended⟩

/-- Plain text and then a text that is cut can be read to the end. -/
theorem readsToEnd_of_lexable {cs text : List Char} (lexable : Lexable cs) (plain : '<' ∉ text)
    (between : Between root ((text ++ cs).map .char) r) : r.ReadsToEnd := by
  induction lexable generalizing text r with
  | nil =>
    have splits : Symbol.upToElement ((text ++ []).map .char) = (text, []) :=
      Symbol.upToElement_append plain (by simp)
    by_cases some_ : text = []
    · subst some_
      obtain ⟨after, ended⟩ := next_end between splits
      exact ⟨[], r, after, .stop r, ended⟩
    · obtain ⟨middle, found, further⟩ := next_text between some_ splits rfl
      obtain ⟨after, ended⟩ := next_end further rfl
      exact .token found ⟨[], middle, after, .stop middle, ended⟩
  | @char c rest other _ ih =>
    have longer : '<' ∉ text ++ [c] := by simp [plain, Ne.symm other]
    refine ih longer ?_
    rwa [List.append_assoc]
  | @element body rest tokens lexed _ ih =>
    have behind : ∀ line, (outside root line (rest.map .char)).ReadsToEnd :=
      fun line => ih List.not_mem_nil (.outside line _)
    by_cases some_ : text = []
    · subst some_
      exact readsToEnd_of_element lexed between behind
    · have ends : ∀ c ∈ ('<' :: (body ++ rest)).head?, c = '<' := by simp
      have noComment := lexed.commentBody? (rest.map .char)
      rw [← List.map_append] at noComment
      obtain ⟨middle, found, further⟩ :=
        next_text between some_ (Symbol.upToElement_append plain ends) noComment
      exact .token found (readsToEnd_of_element lexed further behind)

end Reader

/-- A text without comments can be read to its end just if it is cut into characters and elements. -/
theorem readsToEnd_iff_lexable {text : String} (free : ¬ commentStart <:+: text.toList)
    (directory : String) :
    (Reader.ofText text directory).ReadsToEnd ↔ Lexable text.toList := by
  have between : Reader.Between directory (text.toList.map .char) (.ofText text directory) :=
    .outside 1 _
  constructor
  · rintro ⟨tokens, last, after, trail, ended⟩
    exact (Reader.cuts_of_trail trail ended free).1 between
  · intro lexable
    exact Reader.readsToEnd_of_lexable lexable List.not_mem_nil between

end ConfigTemplate.Markup
