import ConfigTemplate.Files.Store
import ConfigTemplate.Text.Word

/-!
# Symbols

What remains to be read of a template is one list of symbols. Characters are symbols, and so is the
end of every included file, so the list also shows which files are being read: those whose ends lie
ahead. Look-ahead never goes past such an end.

The functions here take the front of the list apart. Each of them leaves a suffix of the list, and
all but `afterComment` go through the ends of files.
-/

namespace ConfigTemplate.Markup

inductive Symbol where
  | char (c : Char)
  /-- The end of the included file at a location. -/
  | endOf (file : Location)
deriving DecidableEq, Repr

namespace Symbol

/-- The symbols of a text. -/
def ofText (text : String) : List Symbol := text.toList.map .char

/-- The innermost file that is being read, if it is an included one. -/
def innermost? : List Symbol → Option Location
  | [] => none
  | .char _ :: rest => innermost? rest
  | .endOf file :: _ => some file

/-- Whether the symbols start with the given characters. -/
def startWith : List Char → List Symbol → Bool
  | [], _ => true
  | c :: cs, .char d :: rest => c == d && startWith cs rest
  | _ :: _, _ => false

/-- The line after a character, of which the symbols behind it decide whether it ends the line: a
carriage return does so unless a line feed of the same file follows. -/
def lineAfter (line : Nat) (c : Char) (rest : List Symbol) : Nat :=
  if c = '\n' ∨ (c = '\r' ∧ rest.head? ≠ some (.char '\n')) then line + 1 else line

/-- Characters that were read, the line behind them, and the symbols that follow. -/
structure Scan where
  text : List Char
  line : Nat
  rest : List Symbol
deriving DecidableEq, Repr

/-- Puts a character before those that were read. -/
def Scan.cons (c : Char) (scan : Scan) : Scan := { scan with text := c :: scan.text }

/-- Reads all characters up to a `<`. -/
def literal (line : Nat) : List Symbol → Scan
  | [] => ⟨[], line, []⟩
  | .endOf _ :: rest => literal line rest
  | .char c :: rest =>
    if c = '<' then ⟨[], line, .char c :: rest⟩
    else (literal (lineAfter line c rest) rest).cons c

/-- Reads an attribute value up to the quote that ends it. A backslash stands before a character that
is taken as it is; the first argument says that one was just read. -/
def quoted (escaped : Bool) (line : Nat) : List Symbol → Scan
  | [] => ⟨[], line, []⟩
  | .endOf _ :: rest => quoted escaped line rest
  | .char c :: rest =>
    if escaped then (quoted false (lineAfter line c rest) rest).cons c
    else if c = '"' then ⟨[], line, .char c :: rest⟩
    else if c = '\\' then quoted true line rest
    else (quoted false (lineAfter line c rest) rest).cons c

/-- Reads the characters that continue a name. -/
def word (line : Nat) : List Symbol → Scan
  | [] => ⟨[], line, []⟩
  | .endOf _ :: rest => word line rest
  | .char c :: rest =>
    if Text.isWordPart c then (word line rest).cons c else ⟨[], line, .char c :: rest⟩

/-- Skips spaces, tabs and line breaks. -/
def blanks (line : Nat) : List Symbol → Nat × List Symbol
  | [] => (line, [])
  | .endOf _ :: rest => blanks line rest
  | .char c :: rest =>
    if Text.isSpaceOrTab c || Text.isLineBreak c then blanks (lineAfter line c rest) rest
    else (line, .char c :: rest)

/-- Skips the ends of files. -/
def nextCharacter : List Symbol → List Symbol
  | .endOf _ :: rest => nextCharacter rest
  | symbols => symbols

/-- Skips everything up to the `-->` that ends a comment. -/
def comment (line : Nat) : List Symbol → Nat × List Symbol
  | [] => (line, [])
  | .endOf _ :: rest => comment line rest
  | .char c :: rest =>
    if startWith ['-', '-', '>'] (.char c :: rest) then (line, .char c :: rest)
    else comment (lineAfter line c rest) rest

/-- Whether a symbol is a space or a tab. -/
def isSpaceOrTab : Symbol → Bool
  | .char c => Text.isSpaceOrTab c
  | .endOf _ => false

/-- Skips the rest of the line behind a comment with the line break, if nothing but spaces and tabs
stands there. The end of the file ends the line too. -/
def afterComment (line : Nat) (symbols : List Symbol) : Nat × List Symbol :=
  match symbols.dropWhile isSpaceOrTab with
  -- The two characters of one line break, in the same file.
  | .char '\r' :: .char '\n' :: rest => (line + 1, rest)
  | .char c :: rest => if Text.isLineBreak c then (line + 1, rest) else (line, symbols)
  | rest => (line, rest)

/-- The symbols behind the `<!--` that starts a comment here. -/
def commentBody? (symbols : List Symbol) : Option (List Symbol) :=
  if startWith ['<', '!', '-', '-'] symbols then some (symbols.drop 4) else none

/-- Skips a comment behind its `<!--`, unless it has no end. -/
def skipComment (line : Nat) (body : List Symbol) : Nat × Option (List Symbol) :=
  match comment line body with
  | (line, []) => (line, none)
  | (line, rest) => ((afterComment line (rest.drop 3)).map id some)

/-! ## What is left is a suffix -/

theorem literal_suffix (line : Nat) (symbols : List Symbol) :
    (literal line symbols).rest <:+ symbols := by
  fun_induction literal line symbols with
  | case1 => exact List.suffix_refl _
  | case2 line file rest ih => exact ih.trans (List.suffix_cons _ _)
  | case3 => exact List.suffix_refl _
  | case4 line c rest differs ih => exact ih.trans (List.suffix_cons _ _)

/-- A suffix of what follows a symbol follows some symbol itself. -/
theorem exists_cons_suffix {symbol : Symbol} {symbols middle rest : List Symbol}
    (front : symbol :: middle <:+ symbols) (back : rest <:+ middle) :
    ∃ last, last :: rest <:+ symbols := by
  obtain ⟨before, split⟩ := back
  subst split
  rcases List.eq_nil_or_concat before with none | ⟨initial, last, some⟩
  · subst none
    exact ⟨symbol, front⟩
  · subst some
    exact ⟨last, .trans ⟨symbol :: initial, by simp⟩ front⟩

/-- When literal text was read, at least one symbol is gone. -/
theorem literal_progress {line : Nat} {symbols : List Symbol}
    (found : (literal line symbols).text ≠ []) :
    ∃ symbol, symbol :: (literal line symbols).rest <:+ symbols := by
  fun_induction literal line symbols with
  | case1 => exact absurd rfl found
  | case2 line file rest ih =>
    obtain ⟨symbol, suffix⟩ := ih found
    exact ⟨symbol, suffix.trans (List.suffix_cons _ _)⟩
  | case3 => exact absurd rfl found
  | case4 line c rest differs ih =>
    exact exists_cons_suffix (List.suffix_refl _) (literal_suffix _ _)

theorem quoted_suffix (escaped : Bool) (line : Nat) (symbols : List Symbol) :
    (quoted escaped line symbols).rest <:+ symbols := by
  fun_induction quoted escaped line symbols with
  | case1 => exact List.suffix_refl _
  | case4 => exact List.suffix_refl _
  | case2 _ _ _ _ ih | case3 _ _ _ ih | case5 _ _ _ _ _ ih | case6 _ _ _ _ _ _ _ ih =>
    exact ih.trans (List.suffix_cons _ _)

theorem word_suffix (line : Nat) (symbols : List Symbol) :
    (word line symbols).rest <:+ symbols := by
  fun_induction word line symbols with
  | case1 => exact List.suffix_refl _
  | case2 _ _ ih | case3 _ _ _ ih => exact ih.trans (List.suffix_cons _ _)
  | case4 => exact List.suffix_refl _

theorem blanks_suffix (line : Nat) (symbols : List Symbol) :
    (blanks line symbols).2 <:+ symbols := by
  fun_induction blanks line symbols with
  | case1 => exact List.suffix_refl _
  | case2 _ _ _ ih | case3 _ _ _ _ ih => exact ih.trans (List.suffix_cons _ _)
  | case4 => exact List.suffix_refl _

theorem nextCharacter_suffix (symbols : List Symbol) : nextCharacter symbols <:+ symbols := by
  fun_induction nextCharacter symbols with
  | case1 _ _ ih => exact ih.trans (List.suffix_cons _ _)
  | case2 => exact List.suffix_refl _

theorem comment_suffix (line : Nat) (symbols : List Symbol) :
    (comment line symbols).2 <:+ symbols := by
  fun_induction comment line symbols with
  | case1 => exact List.suffix_refl _
  | case2 _ _ _ ih | case4 _ _ _ _ ih => exact ih.trans (List.suffix_cons _ _)
  | case3 => exact List.suffix_refl _

theorem afterComment_suffix (line : Nat) (symbols : List Symbol) :
    (afterComment line symbols).2 <:+ symbols := by
  have dropped : symbols.dropWhile isSpaceOrTab <:+ symbols := List.dropWhile_suffix isSpaceOrTab
  unfold afterComment
  split
  · rename_i rest same
    rw [same] at dropped
    exact ((List.suffix_cons _ _).trans (List.suffix_cons _ _)).trans dropped
  · rename_i c rest _ same
    split
    · rw [same] at dropped
      exact (List.suffix_cons _ _).trans dropped
    · exact List.suffix_refl _
  · exact dropped

theorem skipComment_suffix {line after : Nat} {body rest : List Symbol}
    (found : skipComment line body = (after, some rest)) : rest <:+ body := by
  have ahead := comment_suffix line body
  unfold skipComment at found
  split at found
  · cases found
  · rename_i same
    rw [same] at ahead
    cases found
    exact ((afterComment_suffix _ _).trans (List.drop_suffix _ _)).trans ahead

theorem commentBody?_suffix {symbols body : List Symbol} (found : commentBody? symbols = some body) :
    ∃ symbol, symbol :: body <:+ symbols := by
  unfold commentBody? at found
  split at found
  · rename_i starts
    cases found
    match symbols, starts with
    | a :: b :: c :: d :: rest, _ => exact ⟨d, [a, b, c], rfl⟩
    | [], starts => cases starts
    | [a], starts => cases a <;> simp [startWith] at starts
    | [a, b], starts => cases a <;> cases b <;> simp [startWith] at starts
    | [a, b, c], starts => cases a <;> cases b <;> cases c <;> simp [startWith] at starts
  · cases found

end Symbol

end ConfigTemplate.Markup
