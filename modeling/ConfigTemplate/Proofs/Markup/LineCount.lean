import ConfigTemplate.Markup.Reader

/-!
# Counting lines

A line feed ends a line, and so does a carriage return, but the two in this order end it only once.
A reader counts the line breaks of whatever it reads: text, blanks, comments and values. So its line
and the line breaks ahead of it always add up to the same number, and as it never stops between a
carriage return and its line feed, the line is that of the place which it has reached.

Results:
1. `lineBreaks_append`: a text has the line breaks of its parts, if none is cut in two.
2. `Reader.next_tallies`: reading a token counts all line breaks that it takes and cuts none.
3. `Reader.calls_line`: the line of a reader, behind any number of tokens and errors.
-/

namespace ConfigTemplate.Markup

/-! ## The line breaks of a text -/

/-- The number of line breaks: the line feeds, and the carriage returns without a line feed behind
them. -/
def lineBreaks : List Char → Nat
  | [] => 0
  | c :: rest =>
    if c = '\n' ∨ (c = '\r' ∧ rest.head? ≠ some '\n') then lineBreaks rest + 1 else lineBreaks rest

/-- The two texts do not share a line break. -/
def Severs (front rest : List Char) : Prop :=
  front.getLast? = some '\r' → rest.head? ≠ some '\n'

theorem lineBreaks_append {front rest : List Char} (severs : Severs front rest) :
    lineBreaks (front ++ rest) = lineBreaks front + lineBreaks rest := by
  induction front with
  | nil => simp [lineBreaks]
  | cons c front ih =>
    cases front with
    | nil =>
      have ends : c = '\r' → rest.head? ≠ some '\n' := fun same => severs (same ▸ rfl)
      by_cases feed : c = '\n'
      · simp [lineBreaks, feed, Nat.add_comm]
      by_cases return_ : c = '\r'
      · simp [lineBreaks, return_, ends return_, Nat.add_comm]
      · simp [lineBreaks, feed, return_]
    | cons d front =>
      have head : (d :: front ++ rest).head? = (d :: front).head? := rfl
      rw [List.cons_append, lineBreaks, lineBreaks.eq_2 c, head, ih (by simpa [Severs] using severs)]
      by_cases ends : c = '\n' ∨ (c = '\r' ∧ (d :: front).head? ≠ some '\n')
      · rw [if_pos ends, if_pos ends]
        omega
      · rw [if_neg ends, if_neg ends]

theorem lineBreaks_eq_zero {text : List Char} (plain : ∀ c ∈ text, Text.isLineBreak c = false) :
    lineBreaks text = 0 := by
  induction text with
  | nil => rfl
  | cons c text ih =>
    obtain ⟨first, others⟩ := List.forall_mem_cons.1 plain
    simp only [Text.isLineBreak, Bool.or_eq_false_iff, beq_eq_false_iff_ne] at first
    simp [lineBreaks, first, ih others]

theorem not_isLineBreak_of_isWordPart {c : Char} (part : Text.isWordPart c) :
    Text.isLineBreak c = false := by
  simp only [Text.isLineBreak, Bool.or_eq_false_iff, beq_eq_false_iff_ne]
  constructor
  · rintro rfl
    exact absurd part (by decide)
  · rintro rfl
    exact absurd part (by decide)

theorem not_isLineBreak_of_isSpaceOrTab {c : Char} (blank : Text.isSpaceOrTab c) :
    Text.isLineBreak c = false := by
  simp only [Text.isSpaceOrTab, Bool.or_eq_true, beq_iff_eq] at blank
  rcases blank with rfl | rfl <;> decide

namespace Symbol

/-- The number of line breaks that a reader counts when it reads the symbols to their end. -/
def breaksAhead : List Symbol → Nat
  | [] => 0
  | .endOf _ :: rest => breaksAhead rest
  | .char c :: rest => lineAfter (breaksAhead rest) c rest

theorem breaksAhead_map (cs : List Char) : breaksAhead (cs.map .char) = lineBreaks cs := by
  induction cs with
  | nil => rfl
  | cons c cs ih =>
    have head : (cs.map Symbol.char).head? = some (.char '\n') ↔ cs.head? = some '\n' := by
      cases cs <;> simp
    simp only [List.map_cons, breaksAhead, lineAfter, lineBreaks, ih, ne_eq, head]

/-- A character counts the same before and behind other lines. -/
theorem lineAfter_add (line count : Nat) (c : Char) (rest : List Symbol) :
    lineAfter line c rest + count = line + lineAfter count c rest := by
  unfold lineAfter
  split <;> omega

theorem lineAfter_plain {c : Char} (plain : Text.isLineBreak c = false) (line : Nat)
    (rest : List Symbol) : lineAfter line c rest = line := by
  simp only [Text.isLineBreak, Bool.or_eq_false_iff, beq_eq_false_iff_ne] at plain
  simp [lineAfter, plain]

/-! ## Counting while reading -/

/-- Between the symbols and what is left of them all line breaks have been counted, and none has been
cut in two. -/
structure Counts (line : Nat) (symbols : List Symbol) (later : Nat) (rest : List Symbol) : Prop where
  adds : later + breaksAhead rest = line + breaksAhead symbols
  whole : ∃ front, symbols = front ++ rest ∧
    (front.getLast? = some (.char '\r') → rest.head? ≠ some (.char '\n'))

namespace Counts

variable {line middle later : Nat} {symbols between rest : List Symbol}

theorem refl (line : Nat) (symbols : List Symbol) : Counts line symbols line symbols :=
  ⟨rfl, [], rfl, nofun⟩

theorem trans (first : Counts line symbols middle between)
    (second : Counts middle between later rest) : Counts line symbols later rest := by
  obtain ⟨front, rfl, ends⟩ := first.whole
  obtain ⟨back, rfl, stops⟩ := second.whole
  refine ⟨second.adds.trans first.adds, front ++ back, by simp, ?_⟩
  cases back with
  | nil => simpa using ends
  | cons symbol back =>
    intro last
    rw [List.getLast?_append, List.getLast?_cons, Option.some_or] at last
    exact stops (List.getLast?_cons.trans last)

/-- Before anything but a line feed no line break can be cut. -/
theorem of_suffix (suffix : rest <:+ symbols) (head : ∀ symbol ∈ rest.head?, symbol ≠ .char '\n')
    (adds : later + breaksAhead rest = line + breaksAhead symbols) :
    Counts line symbols later rest := by
  obtain ⟨front, rfl⟩ := suffix
  exact ⟨adds, front, rfl, fun _ feed => head _ feed rfl⟩

theorem endOf (line : Nat) (file : Location) (rest : List Symbol) :
    Counts line (.endOf file :: rest) line rest := ⟨rfl, [.endOf file], rfl, nofun⟩

theorem char {c : Char} (other : Text.isLineBreak c = false) (line : Nat) (rest : List Symbol) :
    Counts line (.char c :: rest) line rest := by
  refine ⟨?_, [.char c], rfl, fun last => ?_⟩
  · rw [breaksAhead, lineAfter_plain other]
  · cases last
    cases other

/-- Characters that end no line. -/
theorem plain {cs : List Char} (others : ∀ c ∈ cs, Text.isLineBreak c = false) (line : Nat)
    (rest : List Symbol) : Counts line (cs.map .char ++ rest) line rest := by
  induction cs with
  | nil => exact refl line rest
  | cons c cs ih =>
    obtain ⟨first, others⟩ := List.forall_mem_cons.1 others
    exact (char first line (cs.map .char ++ rest)).trans (ih others)

/-- A line break that is read as a whole. -/
theorem lineBreak {c : Char} (ends : Text.isLineBreak c) (single : c = '\r' →
    rest.head? ≠ some (.char '\n')) (line : Nat) :
    Counts line (.char c :: rest) (line + 1) rest := by
  simp only [Text.isLineBreak, Bool.or_eq_true, beq_iff_eq] at ends
  refine ⟨?_, [.char c], rfl, fun last => ?_⟩
  · rcases ends with rfl | rfl
    · simp only [breaksAhead, lineAfter, true_or, if_true]
      omega
    · simp only [breaksAhead, lineAfter, single rfl, ne_eq, not_false_eq_true, and_self, or_true,
        if_true]
      omega
  · cases last
    exact single rfl

end Counts

/-! ### What is left starts with no line feed -/

theorem literal_head (line : Nat) (symbols : List Symbol) :
    ∀ symbol ∈ (literal line symbols).rest.head?, symbol = .char '<' := by
  fun_induction literal line symbols with
  | case1 => simp
  | case2 _ _ _ ih => exact ih
  | case3 => simp
  | case4 _ _ _ _ ih => exact ih

theorem quoted_head (escaped : Bool) (line : Nat) (symbols : List Symbol) :
    ∀ symbol ∈ (quoted escaped line symbols).rest.head?, symbol = .char '"' := by
  fun_induction quoted escaped line symbols with
  | case1 => simp
  | case4 => simp
  | case2 _ _ _ _ ih | case3 _ _ _ ih | case5 _ _ _ _ _ ih | case6 _ _ _ _ _ _ _ ih => exact ih

theorem blanks_head (line : Nat) (symbols : List Symbol) :
    ∀ symbol ∈ (blanks line symbols).2.head?, ∃ c, symbol = .char c ∧
      Text.isLineBreak c = false := by
  fun_induction blanks line symbols with
  | case1 => simp
  | case2 _ _ _ ih | case3 _ _ _ _ ih => exact ih
  | case4 line c rest visible =>
    simp only [Bool.or_eq_true, not_or, Bool.not_eq_true] at visible
    rintro _ ⟨⟩
    exact ⟨c, rfl, visible.2⟩

theorem comment_head (line : Nat) (symbols : List Symbol) :
    (comment line symbols).2 = [] ∨ startWith ['-', '-', '>'] (comment line symbols).2 := by
  fun_induction comment line symbols with
  | case1 => exact .inl rfl
  | case2 _ _ _ ih | case4 _ _ _ _ ih => exact ih
  | case3 _ _ _ ends => exact .inr ends

theorem eq_of_startWith {cs : List Char} {symbols : List Symbol} (starts : startWith cs symbols) :
    symbols = cs.map .char ++ symbols.drop cs.length := by
  induction cs generalizing symbols with
  | nil => rfl
  | cons c cs ih =>
    cases symbols with
    | nil => cases starts
    | cons symbol symbols =>
      cases symbol with
      | endOf file => cases starts
      | char d =>
        simp only [startWith, Bool.and_eq_true, beq_iff_eq] at starts
        obtain ⟨rfl, starts⟩ := starts
        exact congrArg _ (ih starts)

/-! ### Scanning -/

theorem literal_counts (line : Nat) (symbols : List Symbol) :
    Counts line symbols (literal line symbols).line (literal line symbols).rest := by
  refine .of_suffix (literal_suffix line symbols) (fun symbol first => ?_) ?_
  · rw [literal_head line symbols symbol first]
    decide
  · fun_induction literal line symbols with
    | case1 => rfl
    | case2 _ _ _ ih => exact ih
    | case3 => rfl
    | case4 line c rest _ ih => exact ih.trans (lineAfter_add ..)

/-- When no literal text was read, no line break was. -/
theorem literal_line {line : Nat} {symbols : List Symbol}
    (none_ : (literal line symbols).text = []) : (literal line symbols).line = line := by
  fun_induction literal line symbols with
  | case1 => rfl
  | case2 _ _ _ ih => exact ih none_
  | case3 => rfl
  | case4 => cases none_

theorem quoted_counts (escaped : Bool) (line : Nat) (symbols : List Symbol) :
    Counts line symbols (quoted escaped line symbols).line (quoted escaped line symbols).rest := by
  refine .of_suffix (quoted_suffix escaped line symbols) (fun symbol first => ?_) ?_
  · rw [quoted_head escaped line symbols symbol first]
    decide
  · fun_induction quoted escaped line symbols with
    | case1 => rfl
    | case2 _ _ _ _ ih => exact ih
    | case3 _ _ _ ih => exact ih.trans (lineAfter_add ..)
    | case4 => rfl
    | case5 _ _ _ _ _ ih => exact ih
    | case6 _ _ _ _ _ _ _ ih => exact ih.trans (lineAfter_add ..)

theorem blanks_counts (line : Nat) (symbols : List Symbol) :
    Counts line symbols (blanks line symbols).1 (blanks line symbols).2 := by
  refine .of_suffix (blanks_suffix line symbols) (fun symbol first => ?_) ?_
  · obtain ⟨c, rfl, other⟩ := blanks_head line symbols symbol first
    rintro ⟨⟩
    cases other
  · fun_induction blanks line symbols with
    | case1 => rfl
    | case2 _ _ _ ih => exact ih
    | case3 _ _ _ _ ih => exact ih.trans (lineAfter_add ..)
    | case4 => rfl

/-- A name holds no line breaks. -/
theorem word_counts (line : Nat) (symbols : List Symbol) :
    Counts line symbols line (word line symbols).rest := by
  fun_induction word line symbols with
  | case1 => exact .refl _ _
  | case2 file rest ih => exact (Counts.endOf line file rest).trans ih
  | case3 c rest part ih => exact (Counts.char (not_isLineBreak_of_isWordPart part) _ _).trans ih
  | case4 => exact .refl _ _

theorem comment_counts (line : Nat) (symbols : List Symbol) :
    Counts line symbols (comment line symbols).1 (comment line symbols).2 := by
  refine .of_suffix (comment_suffix line symbols) (fun symbol first => ?_) ?_
  · rcases comment_head line symbols with none_ | ends
    · rw [none_] at first
      cases first
    · rw [eq_of_startWith ends] at first
      cases first
      decide
  · fun_induction comment line symbols with
    | case1 => rfl
    | case2 _ _ _ ih => exact ih
    | case3 => rfl
    | case4 _ _ _ _ ih => exact ih.trans (lineAfter_add ..)

theorem Counts.dropWhile (line : Nat) (symbols : List Symbol) :
    Counts line symbols line (symbols.dropWhile isSpaceOrTab) := by
  induction symbols with
  | nil => exact .refl _ _
  | cons symbol symbols ih =>
    by_cases blank : isSpaceOrTab symbol
    · rw [List.dropWhile_cons_of_pos blank]
      cases symbol with
      | endOf file => cases blank
      | char c => exact (Counts.char (not_isLineBreak_of_isSpaceOrTab blank) _ _).trans ih
    · rw [List.dropWhile_cons_of_neg blank]
      exact .refl _ _

theorem afterComment_counts (line : Nat) (symbols : List Symbol) :
    Counts line symbols (afterComment line symbols).1 (afterComment line symbols).2 := by
  have skipped := Counts.dropWhile line symbols
  unfold afterComment
  split
  · rename_i rest same
    rw [same] at skipped
    refine skipped.trans ⟨?_, [.char '\r', .char '\n'], rfl, nofun⟩
    simp [breaksAhead, lineAfter]
    omega
  · rename_i c rest single same
    split
    · rename_i ends
      rw [same] at skipped
      refine skipped.trans (.lineBreak ends (fun return_ feed => ?_) line)
      obtain ⟨after, rfl⟩ := List.head?_eq_some_iff.1 feed
      exact single after rfl return_
    · exact .refl _ _
  · exact skipped

/-- Skipping a comment, up to its end or up to the end of the input. -/
theorem skipComment_counts {line later : Nat} {body : List Symbol} {rest : Option (List Symbol)}
    (skips : skipComment line body = (later, rest)) : Counts line body later (rest.getD []) := by
  have counted := comment_counts line body
  have ends := comment_head line body
  unfold skipComment at skips
  split at skips
  · rename_i same
    rw [same] at counted
    cases skips
    exact counted
  · rename_i reached ahead some_ same
    rw [same] at counted ends
    cases skips
    have starts := eq_of_startWith (ends.resolve_left some_)
    dsimp only at counted starts
    rw [starts] at counted
    exact (counted.trans (.plain (by simp [Text.isLineBreak]) _ _)).trans (afterComment_counts _ _)

theorem commentBody?_counts {symbols body : List Symbol} (found : commentBody? symbols = some body)
    (line : Nat) : Counts line symbols line body := by
  unfold commentBody? at found
  split at found
  · rename_i starts
    cases found
    have split := eq_of_startWith starts
    rw [split]
    exact .plain (by simp [Text.isLineBreak]) line _
  · cases found

end Symbol

namespace Reader

open Markup.Symbol

/-! ## Readers -/

/-- A reader before an element stands at its `<`. -/
def Steady (r : Reader) : Prop := r.mode = .atElement → r.input.head? = some (.char '<')

theorem Steady.of_mode {r : Reader} (other : r.mode ≠ .atElement) : r.Steady :=
  fun mode => absurd mode other

theorem steady_cutOff (r : Reader) (line : Nat) (unfinished : Unfinished) :
    (r.cutOff line unfinished).2.Steady := nofun

/-- Reading counts the line breaks of what it takes, and leaves a steady reader. -/
structure Tallies (r : Reader) (outcome : Outcome) : Prop where
  counts : Counts r.line r.input outcome.2.line outcome.2.input
  steady : Steady outcome.2

theorem readElementStart_tallies {r : Reader} (start : r.input.head? = some (.char '<')) :
    Tallies r r.readElementStart := by
  obtain ⟨rest, input⟩ := List.head?_eq_some_iff.1 start
  have counts := Counts.char (c := '<') (by decide) r.line rest
  rw [← input] at counts
  simp only [readElementStart, input, nextCharacter, if_true]
  exact ⟨counts, nofun⟩

theorem readInside_tallies {r : Reader} (mode : r.mode = .insideElement) :
    Tallies r r.readInside := by
  have skipped := blanks_counts r.line r.input
  have first := blanks_head r.line r.input
  unfold readInside
  generalize blanks r.line r.input = reached at skipped first
  obtain ⟨line, input⟩ := reached
  dsimp only at skipped first ⊢
  split
  · rename_i c rest
    obtain ⟨_, ⟨⟩, other⟩ := first _ rfl
    have taken := skipped.trans (.char other line rest)
    split
    · exact ⟨taken, .of_mode (by simp [mode])⟩
    split
    · exact ⟨taken, .of_mode (by simp [mode])⟩
    split
    · exact ⟨taken, .of_mode (by simp)⟩
    split
    · have value := quoted_counts false line rest
      have quote := quoted_head false line rest
      split
      · rename_i none_
        rw [none_] at value
        exact ⟨taken.trans value, steady_cutOff _ _ _⟩
      · rename_i after some_
        rw [some_] at value quote
        rw [quote _ rfl] at value
        exact ⟨(taken.trans value).trans (.char (by decide) _ _), .of_mode (by simp [mode])⟩
    split
    · exact ⟨taken.trans (word_counts line rest), .of_mode (by simp [mode])⟩
    · exact ⟨taken, .of_mode (by simp [mode])⟩
  · rename_i other
    cases input with
    | nil => exact ⟨skipped, steady_cutOff _ _ _⟩
    | cons symbol input =>
      obtain ⟨c, rfl, -⟩ := first _ rfl
      exact absurd rfl (other c input)

theorem readOutside_tallies (r : Reader) : Tallies r r.readOutside := by
  fun_induction readOutside r with
  | case1 r found body starts blank line skips =>
    have counts := (literal_counts r.line r.input).trans
      ((commentBody?_counts starts _).trans (skipComment_counts skips))
    exact ⟨counts, steady_cutOff _ _ _⟩
  | case2 r found body starts blank line rest skips ih =>
    have counts := (literal_counts r.line r.input).trans
      ((commentBody?_counts starts _).trans (skipComment_counts skips))
    exact ⟨counts.trans ih.counts, ih.steady⟩
  | case3 r found content body starts =>
    exact ⟨(literal_counts r.line r.input).trans (commentBody?_counts starts _), .of_mode (by simp)⟩
  | case4 r found content _ atEnd =>
    have counts := literal_counts r.line r.input
    rw [show (literal r.line r.input).rest = [] from atEnd] at counts
    exact ⟨counts, .of_mode (by simp)⟩
  | case5 r found _ first rest same blank =>
    have counts := literal_counts r.line r.input
    have start := literal_head r.line r.input
    rw [show (literal r.line r.input).rest = first :: rest from same] at counts start
    rw [start first rfl, literal_line blank] at counts
    exact ⟨counts.trans (.char (by decide) r.line rest), .of_mode (by simp)⟩
  | case6 r found content _ first rest same blank =>
    have counts := literal_counts r.line r.input
    have start := literal_head r.line r.input
    rw [show (literal r.line r.input).rest = first :: rest from same] at counts start
    exact ⟨counts, fun _ => congrArg some (start _ rfl)⟩

theorem read_tallies {r : Reader} (steady : Steady r) : Tallies r r.read := by
  unfold read
  split
  · exact r.readOutside_tallies
  · rename_i mode
    exact readElementStart_tallies (steady mode)
  · rename_i mode
    exact readInside_tallies mode
  · split
    · rename_i skips
      exact ⟨skipComment_counts skips, steady_cutOff _ _ _⟩
    · rename_i line rest skips
      have after := readOutside_tallies { r with input := rest, line, mode := .outside }
      exact ⟨(skipComment_counts skips).trans after.counts, after.steady⟩
  · exact ⟨.refl _ _, steady⟩

theorem next_tallies {r : Reader} (steady : Steady r) : Tallies r r.next := by
  unfold next
  split
  · exact ⟨.refl _ _, steady⟩
  · exact read_tallies steady

/-! ## Any number of calls -/

/-- The reader behind a number of calls of `next`, whatever they come to. -/
def calls : Nat → Reader → Reader
  | 0, r => r
  | n + 1, r => calls n r.next.2

theorem calls_counts {r : Reader} (steady : Steady r) (n : Nat) :
    Counts r.line r.input (calls n r).line (calls n r).input := by
  induction n generalizing r with
  | zero => exact .refl _ _
  | succ n ih =>
    have step := next_tallies steady
    exact step.counts.trans (ih step.steady)

/-- The line of a reader is the number of the line on which the rest of its input starts, behind any
number of tokens and errors, and what it has read ends in no half of a line break. -/
theorem calls_line (text directory : String) (n : Nat) :
    ∃ before after, text.toList = before ++ after ∧
      (calls n (ofText text directory)).input = after.map .char ∧
      (calls n (ofText text directory)).line = 1 + lineBreaks before ∧
      ¬ (before.getLast? = some '\r' ∧ after.head? = some '\n') := by
  have counts := calls_counts (r := ofText text directory) nofun n
  generalize (calls n (ofText text directory)).input = input,
    (calls n (ofText text directory)).line = line at counts
  obtain ⟨adds, front, split, ends⟩ := counts
  obtain ⟨before, after, whole, rfl, rfl⟩ := List.map_eq_append_iff.1 split
  have severs : Severs before after := fun last feed =>
    ends (by rw [List.getLast?_map, last]; rfl) (by rw [List.head?_map, feed]; rfl)
  refine ⟨before, after, whole, rfl, ?_, fun ⟨last, feed⟩ => severs last feed⟩
  have total : breaksAhead (ofText text directory).input = lineBreaks before + lineBreaks after := by
    rw [← lineBreaks_append severs, ← whole]
    exact breaksAhead_map text.toList
  rw [breaksAhead_map, total] at adds
  change _ = 1 + _ at adds
  omega

end Reader

end ConfigTemplate.Markup
