/-!
# White space

The white space of Unicode, which is dropped around descriptions.
-/

namespace ConfigTemplate.Text

/-- Whether a character is white space in Unicode. -/
def isWhiteSpace (c : Char) : Bool :=
  let n := c.toNat
  (0x09 ≤ n && n ≤ 0x0D) || n == 0x20 || n == 0x85 || n == 0xA0 || n == 0x1680 ||
    (0x2000 ≤ n && n ≤ 0x200A) || n == 0x2028 || n == 0x2029 || n == 0x202F || n == 0x205F ||
    n == 0x3000

/-- Characters without the white space at both ends. -/
def trimList (cs : List Char) : List Char :=
  ((cs.dropWhile isWhiteSpace).reverse.dropWhile isWhiteSpace).reverse

/-- The text without the white space at both ends. -/
def trim (text : String) : String := String.ofList (trimList text.toList)

/-- Whether a text holds nothing but white space. -/
def isAllWhiteSpace (text : String) : Bool := text.toList.all isWhiteSpace

theorem isWhiteSpace_of_isWhitespace {c : Char} (blank : c.isWhitespace) : isWhiteSpace c := by
  simp only [Char.isWhitespace, Bool.or_eq_true, decide_eq_true_eq] at blank
  rcases blank with ((same | same) | same) | same <;> subst same <;> decide

end ConfigTemplate.Text
