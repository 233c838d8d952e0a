/-!
# Edit distance

The least number of characters to insert, delete or replace that turns one text into another. The
distances from a growing part of the first text to all parts of the second are kept as a row.
-/

namespace ConfigTemplate.Text

/-- The row after one more character `c` of the first text. The row before it is split into its first
number `diagonal` and the others; `left` is the number that was found last. -/
def extendRow (c : Char) (left diagonal : Nat) : List Char → List Nat → List Nat
  | d :: ds, above :: row =>
    let least := min (min (left + 1) (above + 1)) (if c = d then diagonal else diagonal + 1)
    least :: extendRow c least above ds row
  | _, _ => []

/-- The row of distances after one more character of the first text. -/
def nextRow (second : List Char) (row : List Nat) (c : Char) : List Nat :=
  match row with
  | [] => []
  | first :: rest => (first + 1) :: extendRow c (first + 1) first second rest

/-- The edit distance between two texts. -/
def editDistance (first second : List Char) : Nat :=
  (first.foldl (nextRow second) (List.range (second.length + 1))).getLast?.getD 0

end ConfigTemplate.Text
