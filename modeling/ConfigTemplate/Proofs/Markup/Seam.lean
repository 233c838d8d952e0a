import ConfigTemplate.Proofs.Markup.Comments
import ConfigTemplate.Proofs.Markup.LineCount
import Mathlib.Data.List.TakeWhile

/-!
# The end of an included file

The characters of an included file are read as if they stood in the including file. A name, a value,
a text or a comment may start in the one and go on in the other. Only what a reader looks ahead for
has to stand in one file: the start and the end of a comment, the two characters of a line break, and
the line break behind a comment. Behind a text at whose end none of these can be under way, a reader
does not notice the end of the file.

Results:
1. `Reader.next_alike`: two readers whose inputs differ in such an end find the same.
2. `Reader.calls_seamless`: reading an included file is reading its text.
-/

namespace ConfigTemplate.Markup

namespace Symbol

/-! ## Texts with nothing under way at their end -/

/-- At the end of the text stands no part of the start or of the end of a comment, no carriage return,
and no comment with only spaces and tabs behind it. -/
structure Seamless (cs : List Char) : Prop where
  ends : ∀ part ∈ [['<'], ['<', '!'], ['<', '!', '-'], ['-'], ['\r']], ¬ part <:+ cs
  visible : ∀ blank, (∀ c ∈ blank, Text.isSpaceOrTab c) → ¬ commentEnd ++ blank <:+ cs

theorem Seamless.of_suffix {cs left : List Char} (seamless : Seamless cs) (suffix : left <:+ cs) :
    Seamless left where
  ends part among inside := seamless.ends part among (inside.trans suffix)
  visible blank blanks inside := seamless.visible blank blanks (inside.trans suffix)

theorem Seamless.tail {c : Char} {cs : List Char} (seamless : Seamless (c :: cs)) : Seamless cs :=
  seamless.of_suffix (List.suffix_cons c cs)

/-- Most texts are seamless by their last character. -/
theorem Seamless.of_last {c : Char} (other : c ∉ ['<', '!', '-', '>', '\r', ' ', '\t'])
    (front : List Char) : Seamless (front ++ [c]) where
  ends part among inside := by
    obtain ⟨before, same⟩ := inside
    have last := congrArg List.getLast? same
    simp only [List.mem_cons, List.not_mem_nil, or_false] at among
    rcases among with rfl | rfl | rfl | rfl | rfl <;>
      simp only [List.getLast?_append, List.getLast?_cons, List.getLast?_nil] at last <;>
      cases last <;> exact other (by decide)
  visible blank blanks inside := by
    obtain ⟨before, same⟩ := inside
    have last := congrArg List.getLast? same
    rw [List.getLast?_concat] at last
    rcases List.eq_nil_or_concat blank with rfl | ⟨initial, final, rfl⟩
    · rw [List.append_nil, List.getLast?_append] at last
      cases last
      exact other (by decide)
    · rw [List.concat_eq_append, ← List.append_assoc, ← List.append_assoc,
        List.getLast?_concat] at last
      cases last
      have isBlank := blanks c (by simp)
      simp only [Text.isSpaceOrTab, Bool.or_eq_true, beq_iff_eq] at isBlank
      rcases isBlank with rfl | rfl <;> exact other (by decide)

/-! ## Inputs with and without the end of a file -/

section Scanning

variable {file : Location} {outer : List Symbol}

/-- The inputs are the same up to the end of a file behind a seamless text. -/
inductive Joined (file : Location) (outer : List Symbol) : List Symbol → List Symbol → Prop where
  | across {left : List Char} (seamless : Seamless left) :
      Joined file outer (left.map .char ++ .endOf file :: outer) (left.map .char ++ outer)
  /-- The end of the file has been read. -/
  | behind (rest : List Symbol) : Joined file outer rest rest

/-- The same of inputs in which no end of a file comes first. -/
inductive Settled (file : Location) (outer : List Symbol) : List Symbol → List Symbol → Prop where
  | across {c : Char} {left : List Char} (seamless : Seamless (c :: left)) :
      Settled file outer (.char c :: (left.map .char ++ .endOf file :: outer))
        (.char c :: (left.map .char ++ outer))
  | behind (rest : List Symbol) : Settled file outer rest rest

variable {a b : List Symbol}

theorem Joined.rel_refl (rest : Option (List Symbol)) :
    Option.Rel (Joined file outer) rest rest := by
  cases rest with
  | none => exact .none
  | some rest => exact .some (.behind rest)

theorem Settled.joined (settled : Settled file outer a b) : Joined file outer a b := by
  cases settled with
  | across seamless => exact .across seamless
  | behind => exact .behind _

/-- Scans that have read the same. -/
structure Scan.Alike (file : Location) (outer : List Symbol) (s t : Scan) : Prop where
  text : s.text = t.text
  line : s.line = t.line
  rest : Settled file outer s.rest t.rest

theorem Scan.Alike.refl (scan : Scan) : Scan.Alike file outer scan scan := ⟨rfl, rfl, .behind _⟩

theorem Scan.Alike.cons {s t : Scan} (alike : Scan.Alike file outer s t) (c : Char) :
    Scan.Alike file outer (s.cons c) (t.cons c) :=
  ⟨congrArg (c :: ·) alike.text, alike.line, alike.rest⟩

/-- Skipping comes to the same line, and to inputs that are the same up to the end of the file. -/
structure SkipsAlike {α : Type} (same : α → α → Prop) (s t : Nat × α) : Prop where
  line : s.1 = t.1
  rest : same s.2 t.2

/-! ## Scanning up to the end of a file and on -/

theorem lineAfter_across {c : Char} {left : List Char} (seamless : Seamless (c :: left))
    (line : Nat) :
    lineAfter line c (left.map .char ++ .endOf file :: outer) =
      lineAfter line c (left.map .char ++ outer) := by
  cases left with
  | nil =>
    have single : c ≠ '\r' := fun same =>
      seamless.ends ['\r'] (by decide) (same ▸ List.suffix_refl _)
    simp [lineAfter, single]
  | cons d left => rfl

theorem literal_alike (joined : Joined file outer a b) (line : Nat) :
    Scan.Alike file outer (literal line a) (literal line b) := by
  cases joined with
  | behind => exact .refl _
  | @across left seamless =>
    induction left generalizing line with
    | nil => exact .refl _
    | cons c left ih =>
      simp only [List.map_cons, List.cons_append, literal]
      split
      · exact ⟨rfl, rfl, .across seamless⟩
      · rw [lineAfter_across seamless]
        exact (ih _ seamless.tail).cons c

theorem quoted_alike (joined : Joined file outer a b) (escaped : Bool) (line : Nat) :
    Scan.Alike file outer (quoted escaped line a) (quoted escaped line b) := by
  cases joined with
  | behind => exact .refl _
  | @across left seamless =>
    induction left generalizing escaped line with
    | nil => exact .refl _
    | cons c left ih =>
      simp only [List.map_cons, List.cons_append, quoted, lineAfter_across seamless]
      split
      · exact (ih _ _ seamless.tail).cons c
      split
      · exact ⟨rfl, rfl, .across seamless⟩
      split
      · exact ih _ _ seamless.tail
      · exact (ih _ _ seamless.tail).cons c

theorem word_alike (joined : Joined file outer a b) (line : Nat) :
    Scan.Alike file outer (word line a) (word line b) := by
  cases joined with
  | behind => exact .refl _
  | @across left seamless =>
    induction left with
    | nil => exact .refl _
    | cons c left ih =>
      simp only [List.map_cons, List.cons_append, word]
      split
      · exact (ih seamless.tail).cons c
      · exact ⟨rfl, rfl, .across seamless⟩

theorem blanks_alike (joined : Joined file outer a b) (line : Nat) :
    SkipsAlike (Settled file outer) (blanks line a) (blanks line b) := by
  cases joined with
  | behind => exact ⟨rfl, .behind _⟩
  | @across left seamless =>
    induction left generalizing line with
    | nil => exact ⟨rfl, .behind _⟩
    | cons c left ih =>
      simp only [List.map_cons, List.cons_append, blanks]
      split
      · rw [lineAfter_across seamless]
        exact ih _ seamless.tail
      · exact ⟨rfl, .across seamless⟩

theorem nextCharacter_alike (joined : Joined file outer a b) :
    Settled file outer (nextCharacter a) (nextCharacter b) := by
  cases joined with
  | behind => exact .behind _
  | @across left seamless =>
    cases left with
    | nil => exact .behind _
    | cons c left => exact .across seamless

/-- Look-ahead comes to the same, unless the file ends in the front of what is looked for. -/
theorem startWith_across {pattern : List Char} (left : List Char)
    (whole : ∀ front, front <+: pattern → front ≠ pattern → front ≠ left) :
    startWith pattern (left.map .char ++ .endOf file :: outer) =
      startWith pattern (left.map .char ++ outer) := by
  induction pattern generalizing left with
  | nil => rfl
  | cons c pattern ih =>
    cases left with
    | nil => exact absurd rfl (whole [] List.nil_prefix nofun)
    | cons d left =>
      simp only [List.map_cons, List.cons_append, startWith]
      by_cases same : c = d
      · subst same
        rw [ih left fun front part differs same => whole (c :: front)
          ((List.prefix_cons_inj c).2 part) (by simpa using differs) (congrArg _ same)]
      · rw [beq_false_of_ne same, Bool.false_and, Bool.false_and]

/-- Comments start and end the same. -/
theorem startWith_seamless {pattern : List Char} (delimits : pattern ∈ [commentStart, commentEnd])
    {c : Char} {left : List Char} (seamless : Seamless (c :: left)) (file : Location)
    (outer : List Symbol) :
    startWith pattern (.char c :: (left.map .char ++ .endOf file :: outer)) =
      startWith pattern (.char c :: (left.map .char ++ outer)) := by
  refine startWith_across (c :: left) fun front part differs same => ?_
  subst same
  simp only [List.mem_cons, List.not_mem_nil, or_false] at delimits
  rcases delimits with rfl | rfl
  · simp only [commentStart, List.prefix_cons_iff, List.prefix_nil] at part
    rcases part with ⟨⟨⟩⟩ | ⟨_, ⟨⟩, rfl | ⟨_, rfl, rfl | ⟨_, rfl, rfl | ⟨_, rfl, rfl⟩⟩⟩⟩
    · exact seamless.ends ['<'] (by decide) (List.suffix_refl _)
    · exact seamless.ends ['<', '!'] (by decide) (List.suffix_refl _)
    · exact seamless.ends ['<', '!', '-'] (by decide) (List.suffix_refl _)
    · exact differs rfl
  · simp only [commentEnd, List.prefix_cons_iff, List.prefix_nil] at part
    rcases part with ⟨⟨⟩⟩ | ⟨_, ⟨⟩, rfl | ⟨_, rfl, rfl | ⟨_, rfl, rfl⟩⟩⟩
    · exact seamless.ends ['-'] (by decide) (List.suffix_refl _)
    · exact seamless.ends ['-'] (by decide) (List.suffix_cons _ _)
    · exact differs rfl

/-! ### Comments -/

theorem comment_alike (joined : Joined file outer a b) (line : Nat) :
    SkipsAlike (Settled file outer) (comment line a) (comment line b) := by
  cases joined with
  | behind => exact ⟨rfl, .behind _⟩
  | @across left seamless =>
    induction left generalizing line with
    | nil => exact ⟨rfl, .behind _⟩
    | cons c left ih =>
      have same : startWith ['-', '-', '>'] _ = _ :=
        startWith_seamless (by decide) seamless file outer
      simp only [List.map_cons, List.cons_append, comment]
      rw [same]
      split
      · exact ⟨rfl, .across seamless⟩
      · rw [lineAfter_across seamless]
        exact ih _ seamless.tail

/-- What is behind a comment, by the first character that is no space or tab. -/
theorem afterComment_eq {line : Nat} {symbols rest : List Symbol} {c : Char}
    (first : symbols.dropWhile isSpaceOrTab = .char c :: rest) :
    afterComment line symbols =
      if c = '\r' ∧ rest.head? = some (.char '\n') then (line + 1, rest.tail)
      else if Text.isLineBreak c then (line + 1, rest) else (line, symbols) := by
  unfold afterComment
  rw [first]
  split
  · rename_i same
    cases same
    rfl
  · rename_i d after single same
    cases same
    have other : ¬ (c = '\r' ∧ rest.head? = some (.char '\n')) := by
      rintro ⟨rfl, feed⟩
      obtain ⟨after, rfl⟩ := List.head?_eq_some_iff.1 feed
      exact single after rfl rfl
    rw [if_neg other]
  · rename_i other
    exact absurd rfl (other c rest)

/-- Behind a comment, if something other than spaces and tabs stands there in the same file. -/
theorem afterComment_alike {left : List Char} (seamless : Seamless left)
    (visible : ¬ ∀ c ∈ left, Text.isSpaceOrTab c) (line : Nat) :
    SkipsAlike (Joined file outer) (afterComment line (left.map .char ++ .endOf file :: outer))
      (afterComment line (left.map .char ++ outer)) := by
  obtain ⟨c, rest, dropped⟩ : ∃ c rest, left.dropWhile Text.isSpaceOrTab = c :: rest :=
    List.exists_cons_of_ne_nil fun none_ => visible (List.dropWhile_eq_nil_iff.1 none_)
  have first (behind : List Symbol) :
      (left.map Symbol.char ++ behind).dropWhile isSpaceOrTab =
        .char c :: (rest.map .char ++ behind) := by
    rw [List.dropWhile_append, dropWhile_isSpaceOrTab_map, dropped]
    rfl
  have inside : Seamless (c :: rest) := seamless.of_suffix (dropped ▸ List.dropWhile_suffix _)
  rw [afterComment_eq (first _), afterComment_eq (first _)]
  cases rest with
  | nil =>
    have single : c ≠ '\r' := fun same =>
      inside.ends ['\r'] (by decide) (same ▸ List.suffix_refl _)
    simp only [single, false_and, if_false]
    split
    · exact ⟨rfl, .across inside.tail⟩
    · exact ⟨rfl, .across seamless⟩
  | cons d rest =>
    simp only [List.map_cons, List.cons_append, List.head?_cons, List.tail_cons]
    split
    · exact ⟨rfl, .across inside.tail.tail⟩
    split
    · exact ⟨rfl, .across inside.tail⟩
    · exact ⟨rfl, .across seamless⟩

theorem append_of_startWith {pattern : List Char} (left : List Char)
    (starts : startWith pattern (left.map .char ++ .endOf file :: outer)) :
    ∃ rest, left = pattern ++ rest := by
  induction pattern generalizing left with
  | nil => exact ⟨left, rfl⟩
  | cons c pattern ih =>
    cases left with
    | nil => cases starts
    | cons d left =>
      simp only [List.map_cons, List.cons_append, startWith, Bool.and_eq_true, beq_iff_eq] at starts
      obtain ⟨rfl, starts⟩ := starts
      obtain ⟨rest, rfl⟩ := ih left starts
      exact ⟨rest, rfl⟩

theorem skipComment_alike (joined : Joined file outer a b) (line : Nat) :
    SkipsAlike (Option.Rel (Joined file outer)) (skipComment line a) (skipComment line b) := by
  have skips := comment_alike joined line
  have starts := comment_head line a
  unfold skipComment
  generalize comment line a = s, comment line b = t at skips starts
  obtain ⟨later, rest⟩ := s
  obtain ⟨_, left⟩ := t
  obtain ⟨⟨⟩, settled⟩ := skips
  dsimp only at starts settled
  cases settled with
  | behind => exact ⟨rfl, Joined.rel_refl _⟩
  | @across c left seamless =>
    obtain ⟨behind, ⟨⟩⟩ := append_of_startWith (c :: left) (starts.resolve_left nofun)
    have visible : ¬ ∀ c ∈ behind, Text.isSpaceOrTab c := fun blanks =>
      seamless.visible behind blanks (List.suffix_refl _)
    have after : SkipsAlike (Joined file outer) _ _ :=
      afterComment_alike seamless.tail.tail.tail visible later
    exact ⟨after.line, .some after.rest⟩

theorem commentBody?_alike (settled : Settled file outer a b) :
    Option.Rel (Joined file outer) (commentBody? a) (commentBody? b) := by
  cases settled with
  | behind => exact Joined.rel_refl _
  | @across c left seamless =>
    have same : startWith ['<', '!', '-', '-'] _ = _ :=
      startWith_seamless (by decide) seamless file outer
    unfold commentBody?
    rw [← same]
    split
    · rename_i starts
      obtain ⟨behind, ⟨⟩⟩ := append_of_startWith (c :: left) starts
      exact .some (.across seamless.tail.tail.tail.tail)
    · exact .none

end Scanning

end Symbol

namespace Reader

open Markup.Symbol

/-! ## Readers with and without the end of a file -/

section Reading

variable {file : Location} {outer : List Symbol} {r s : Reader}

/-- Readers that differ in nothing but the end of a file, behind a seamless text. -/
inductive Alike (file : Location) (outer : List Symbol) : Reader → Reader → Prop where
  | mk {a b : List Symbol} (joined : Joined file outer a b) (root : String) (line : Nat)
      (mode : Mode) (pushed : List Token) :
      Alike file outer ⟨a, root, line, mode, pushed⟩ ⟨b, root, line, mode, pushed⟩

/-- Reading comes to the same, and leaves such readers. -/
structure Agrees (file : Location) (outer : List Symbol) (o p : Outcome) : Prop where
  result : o.1 = p.1
  reader : Alike file outer o.2 p.2

theorem Alike.line (alike : Alike file outer r s) : r.line = s.line := by
  cases alike
  rfl

theorem Alike.refl (r : Reader) : Alike file outer r r := .mk (.behind r.input) ..

theorem Agrees.refl (o : Outcome) : Agrees file outer o o := ⟨rfl, .refl _⟩

theorem readElementStart_alike (alike : Alike file outer r s) :
    Agrees file outer r.readElementStart s.readElementStart := by
  obtain @⟨a, b, joined, root, line, mode, pushed⟩ := alike
  have settled := nextCharacter_alike joined
  unfold readElementStart
  dsimp only
  generalize nextCharacter a = ahead, nextCharacter b = further at settled
  cases settled with
  | behind => exact .refl _
  | across seamless =>
    dsimp only
    split
    · exact ⟨rfl, .mk (.across seamless.tail) ..⟩
    · exact ⟨rfl, .mk (.across seamless.tail) ..⟩

theorem readInside_alike (alike : Alike file outer r s) :
    Agrees file outer r.readInside s.readInside := by
  obtain @⟨a, b, joined, root, start, mode, pushed⟩ := alike
  have skips := blanks_alike joined start
  unfold readInside
  dsimp only
  generalize blanks start a = ahead, blanks start b = further at skips
  obtain ⟨line, rest⟩ := ahead
  obtain ⟨_, left⟩ := further
  obtain ⟨⟨⟩, settled⟩ := skips
  dsimp only at settled ⊢
  cases settled with
  | behind => exact .refl _
  | @across c left seamless =>
    have tail : Joined file outer _ _ := .across seamless.tail
    dsimp only
    split
    · exact ⟨rfl, .mk tail ..⟩
    split
    · exact ⟨rfl, .mk tail ..⟩
    split
    · exact ⟨rfl, .mk tail ..⟩
    split
    · have value := quoted_alike tail false line
      generalize quoted false line (left.map .char ++ .endOf file :: outer) = here,
        quoted false line (left.map .char ++ outer) = there at value
      obtain ⟨text, later, rest⟩ := here
      obtain ⟨_, _, other⟩ := there
      obtain ⟨⟨⟩, ⟨⟩, settled⟩ := value
      dsimp only at settled ⊢
      cases settled with
      | behind => exact .refl _
      | across seamless => exact ⟨rfl, .mk (.across seamless.tail) ..⟩
    split
    · have name := word_alike tail line
      rw [name.text]
      exact ⟨rfl, .mk name.rest.joined ..⟩
    · exact ⟨rfl, .mk tail ..⟩

/-- Both readers find the same text, and what is behind it differs in nothing else. -/
theorem Alike.exists_literal (alike : Alike file outer r s) :
    ∃ rest, literal s.line s.input = ⟨(literal r.line r.input).text, (literal r.line r.input).line,
      rest⟩ ∧ Settled file outer (literal r.line r.input).rest rest := by
  obtain @⟨a, b, joined, root, line, mode, pushed⟩ := alike
  have scans := literal_alike joined line
  refine ⟨_, ?_, scans.rest⟩
  dsimp only
  rw [scans.text, scans.line]

/-- Where the one finds a comment behind the text, so does the other. -/
theorem Alike.exists_comment (alike : Alike file outer r s) {body : List Symbol}
    (starts : commentBody? (literal r.line r.input).rest = some body) :
    ∃ rest tail, literal s.line s.input = ⟨(literal r.line r.input).text,
      (literal r.line r.input).line, rest⟩ ∧ commentBody? rest = some tail ∧
      Joined file outer body tail := by
  obtain ⟨rest, scans, settled⟩ := alike.exists_literal
  have bodies := commentBody?_alike settled
  rw [starts] at bodies
  generalize same : commentBody? rest = tail? at bodies
  cases bodies with
  | some joined => exact ⟨rest, _, scans, same, joined⟩

/-- Where the one finds no comment, neither does the other. -/
theorem Alike.exists_plain (alike : Alike file outer r s)
    (plain : commentBody? (literal r.line r.input).rest = none) :
    ∃ rest, literal s.line s.input = ⟨(literal r.line r.input).text, (literal r.line r.input).line,
      rest⟩ ∧ commentBody? rest = none ∧ Settled file outer (literal r.line r.input).rest rest := by
  obtain ⟨rest, scans, settled⟩ := alike.exists_literal
  have bodies := commentBody?_alike settled
  rw [plain] at bodies
  generalize same : commentBody? rest = tail? at bodies
  cases bodies with
  | none => exact ⟨rest, scans, same, settled⟩

/-- And behind the comment. -/
theorem exists_skipComment {body tail : List Symbol} (joined : Joined file outer body tail)
    {line later : Nat} {rest : Option (List Symbol)} (skips : skipComment line body = (later, rest)) :
    ∃ left, skipComment line tail = (later, left) ∧ Option.Rel (Joined file outer) rest left := by
  have alike := skipComment_alike joined line
  rw [skips] at alike
  exact ⟨(skipComment line tail).2, Prod.ext alike.line.symm rfl, alike.rest⟩

theorem readOutside_alike (alike : Alike file outer r s) :
    Agrees file outer r.readOutside s.readOutside := by
  fun_induction readOutside r generalizing s with
  | case1 r found body starts blank line =>
    rename_i skips
    obtain ⟨rest, tail, scans, starts, joined⟩ := alike.exists_comment starts
    obtain ⟨left, skips, behind⟩ := exists_skipComment joined skips
    cases behind
    rw [readOutside_comment scans starts skips, if_pos blank]
    cases alike
    exact .refl _
  | case2 r found body starts blank line rest skips =>
    rename_i ih
    obtain ⟨_, tail, scans, starts, joined⟩ := alike.exists_comment starts
    obtain ⟨left, skips, behind⟩ := exists_skipComment joined skips
    obtain @⟨_, left, joined⟩ := behind
    rw [readOutside_comment scans starts skips, if_pos blank]
    cases alike
    exact ih (.mk joined ..)
  | case3 r found content body starts =>
    rename_i some_
    obtain ⟨_, tail, scans, starts, joined⟩ := alike.exists_comment starts
    rw [readOutside_comment scans starts rfl, if_neg some_]
    cases alike
    exact ⟨rfl, .mk joined ..⟩
  | case4 r found content plain =>
    rename_i atEnd
    obtain ⟨rest, scans, -, settled⟩ := alike.exists_plain plain
    rw [show (literal r.line r.input).rest = [] from atEnd] at settled
    cases settled
    rw [readOutside_end scans]
    cases alike
    exact .refl _
  | case5 r found plain first rest same =>
    rename_i blank
    obtain ⟨_, scans, plain, settled⟩ := alike.exists_plain plain
    rw [show (literal r.line r.input).rest = first :: rest from same] at settled
    cases settled with
    | behind =>
      rw [readOutside_element scans plain, if_pos blank]
      cases alike
      exact .refl _
    | across seamless =>
      rw [readOutside_element scans plain, if_pos blank]
      cases alike
      exact ⟨rfl, .mk (.across seamless.tail) ..⟩
  | case6 r found content plain first rest same =>
    rename_i some_
    obtain ⟨_, scans, plain, settled⟩ := alike.exists_plain plain
    rw [show (literal r.line r.input).rest = first :: rest from same] at settled
    cases settled with
    | behind =>
      rw [readOutside_element scans plain, if_neg some_]
      cases alike
      exact .refl _
    | across seamless =>
      rw [readOutside_element scans plain, if_neg some_]
      cases alike
      exact ⟨rfl, .mk (.across seamless) ..⟩

theorem read_alike (alike : Alike file outer r s) : Agrees file outer r.read s.read := by
  obtain @⟨a, b, joined, root, line, mode, pushed⟩ := alike
  unfold read
  cases mode with
  | outside => exact readOutside_alike (.mk joined ..)
  | atElement => exact readElementStart_alike (.mk joined ..)
  | insideElement => exact readInside_alike (.mk joined ..)
  | comment =>
    have skips := skipComment_alike joined line
    dsimp only
    generalize skipComment line a = ahead, skipComment line b = further at skips
    obtain ⟨later, rest⟩ := ahead
    obtain ⟨_, left⟩ := further
    obtain ⟨⟨⟩, behind⟩ := skips
    dsimp only at behind ⊢
    cases behind with
    | none => exact .refl _
    | some joined => exact readOutside_alike (.mk joined ..)
  | finished => exact ⟨rfl, .mk joined ..⟩

/-- Two readers whose inputs differ in nothing but the end of a file, behind a seamless text, find the
same next, and so they do afterwards. -/
theorem next_alike (alike : Alike file outer r s) : Agrees file outer r.next s.next := by
  obtain @⟨a, b, joined, root, line, mode, pushed⟩ := alike
  unfold next
  cases pushed with
  | nil => exact read_alike (.mk joined ..)
  | cons token pushed => exact ⟨rfl, .mk joined ..⟩

/-! ## Any number of calls -/

theorem calls_alike (alike : Alike file outer r s) (n : Nat) :
    Alike file outer (calls n r) (calls n s) := by
  induction n generalizing r s with
  | zero => exact alike
  | succ n ih => exact ih (next_alike alike).reader

/-- Reading an included file and what is behind it, a reader finds the same tokens and errors on the
same lines as in a single text, if the included one is seamless. -/
theorem calls_seamless {included : List Char} (seamless : Seamless included) (outer : List Char)
    (below : List Symbol) (file : Location) (root : String) (line n : Nat) :
    let stacked := calls n (outside root line
      (included.map .char ++ .endOf file :: (outer.map .char ++ below)))
    let joined := calls n (outside root line ((included ++ outer).map .char ++ below))
    stacked.next.1 = joined.next.1 ∧ stacked.line = joined.line := by
  have start : Alike file (outer.map .char ++ below)
      (outside root line (included.map .char ++ .endOf file :: (outer.map .char ++ below)))
      (outside root line (included.map .char ++ (outer.map .char ++ below))) :=
    .mk (.across seamless) root line .outside []
  rw [← List.append_assoc, ← List.map_append] at start
  have alike := calls_alike start n
  exact ⟨(next_alike alike).result, alike.line⟩

/-- A value that starts in the included file and goes on in the including one. -/
theorem exValue_seamless :
    Seamless ['<', 'a', '=', '"', 'b'] ∧
      (calls 3 (outside "" 1 (['<', 'a', '=', '"', 'b'].map .char ++ .endOf ["f"] ::
        (['c', '"', '>'].map .char ++ [])))).next.1 = .ok (some (.quoted "bc")) := by
  have seamless : Seamless ['<', 'a', '=', '"', 'b'] := .of_last (by decide) ['<', 'a', '=', '"']
  have same := (calls_seamless seamless ['c', '"', '>'] [] ["f"] "" 1 3).1
  exact ⟨seamless, same.trans (by decide +kernel)⟩

end Reading

end Reader

end ConfigTemplate.Markup
