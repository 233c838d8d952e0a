import ConfigTemplate.Text.CodeRange
import ConfigTemplate.Text.PrintableTable

/-!
# Quoted text

Text between double quotes as it stands in outlines and messages. Quotes, backslashes and the
characters without a visible form of their own are written as escapes.
-/

namespace ConfigTemplate.Text

/-- Whether a character is printed as it is. -/
def isPrintable (c : Char) : Bool := !inRanges c unprintableRanges

/-- The digits of a number in base sixteen, in lower case and without leading zeros. -/
def hexDigits (n : Nat) : List Char := Nat.toDigits 16 n

/-- The characters that have a short escape, each with what stands behind its backslash. -/
def shortEscapes : List (Char × Char) :=
  [('\x00', '0'), ('\t', 't'), ('\n', 'n'), ('\r', 'r'), ('"', '"'), ('\\', '\\')]

/-- How a character is written between quotes. -/
def escape (c : Char) : List Char :=
  match shortEscapes.lookup c with
  | some short => ['\\', short]
  | none =>
    if isPrintable c then [c]
    else ['\\', 'u', '\x7b'] ++ hexDigits c.toNat ++ ['\x7d']

/-- The text between double quotes. -/
def quote (text : String) : String :=
  String.ofList ('"' :: (text.toList.flatMap escape ++ ['"']))

end ConfigTemplate.Text
