import ConfigTemplate.Text.CodeRange
import ConfigTemplate.Text.CaseTable

/-!
# Lower-casing

The full Unicode lower-case form of a text. It differs from mapping each character in two places: a
capital I with a dot becomes two characters, and a capital sigma takes its final form at the end of a
word.
-/

namespace ConfigTemplate.Text

def isCased (c : Char) : Bool := inRanges c casedRanges

def isCaseIgnorable (c : Char) : Bool := inRanges c caseIgnorableRanges

/-- The lower-case form of a code point by the first run that holds it. -/
def lowerCodePoint (n : Nat) : List CaseRun → Nat
  | [] => n
  | run :: rest =>
    if n < run.first then n
    else if n ≤ run.last && (n - run.first) % run.step == 0 then run.lower + (n - run.first)
    else lowerCodePoint n rest

/-- The lower-case form of a character that stands alone. -/
def lowerCharacter (c : Char) : Char := Char.ofNat (lowerCodePoint c.toNat caseRuns)

/-- Whether the first character of a text that is not ignored for case has case. -/
def startsCased (cs : List Char) : Bool :=
  match cs.dropWhile isCaseIgnorable with
  | [] => false
  | c :: _ => isCased c

/-- The lower-case form of a text, given the characters before it in reverse. -/
def lowerFrom (before : List Char) : List Char → List Char
  | [] => []
  | c :: rest =>
    let lowered :=
      if c = 'İ' then ['i', '\u0307']
      else if c = 'Σ' then
        [if startsCased before && !startsCased rest then 'ς' else 'σ']
      else [lowerCharacter c]
    lowered ++ lowerFrom (c :: before) rest

/-- The lower-case form of a text. -/
def lowerCase (text : String) : String := String.ofList (lowerFrom [] text.toList)

end ConfigTemplate.Text
