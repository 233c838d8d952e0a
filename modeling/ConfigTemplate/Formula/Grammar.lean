import ConfigTemplate.Formula.Lexeme

/-!
# The grammar of formulas

    disjunction := conjunction ("||" disjunction)?
    conjunction := exclusive ("&&" conjunction)?
    exclusive   := unary ("^^" exclusive)?
    unary       := "!" unary | constant | name | "(" disjunction ")"

Equal connectives nest to the right. The right operand of a connective, the operand of `!` and a
formula in parentheses each stand one level deeper than what encloses them, and there are at most
`maxNesting` levels below the outermost one. The readers of one level are built from those of the
level below it, so reading is a recursion on the number of levels that remain.
-/

namespace ConfigTemplate.Formula

/-- The number of levels that a formula may nest. -/
def maxNesting : Nat := 256

/-- A reader takes a formula from the front of a list of lexemes and returns the lexemes after it. -/
abbrev Reader := List Lexeme → Except ParseError (Formula × List Lexeme)

/-- The column of the next lexeme, or the one after the text when there is none. -/
def columnOf (endColumn : Nat) : List Lexeme → Nat
  | [] => endColumn
  | next :: _ => next.column

/-- Readers for the four kinds of formula of one level. -/
structure Level where
  unary : Reader
  exclusive : Reader
  conjunction : Reader
  disjunction : Reader

namespace Level

/-- The level below the last one: every formula is nested too deeply. -/
def tooDeep (endColumn : Nat) : Level :=
  let refuse : Reader := fun rest => .error (.malformed (columnOf endColumn rest) .nestedTooDeeply)
  ⟨refuse, refuse, refuse, refuse⟩

/-- An operand, and another one after the connective if that follows. -/
def joined (connective : Connective) (left right : Reader) : Reader := fun lexemes => do
  let (first, rest) ← left lexemes
  match rest with
  | ⟨.connective found, _⟩ :: after =>
    if found = connective then
      let (second, rest) ← right after
      return (.binary connective first second, rest)
    else return (first, rest)
  | _ => return (first, rest)

/-- A formula in parentheses, after the first of them. -/
def parenthesised (endColumn : Nat) (inner : Reader) : Reader := fun lexemes => do
  let (formula, rest) ← inner lexemes
  match rest with
  | ⟨.closeParen, _⟩ :: after => return (formula, after)
  | _ => throw (.malformed (columnOf endColumn rest) .missingCloseParen)

/-- A formula that no connective stands in, unless in parentheses. -/
def operand (endColumn : Nat) (deeper : Level) : Reader
  | [] => .error (.malformed endColumn .unexpectedEnd)
  | ⟨token, column⟩ :: after =>
    match token with
    | .constant value => .ok (.constant value, after)
    | .name text => .ok (.condition text, after)
    | .negation => do
      let (formula, rest) ← deeper.unary after
      return (.negation formula, rest)
    | .openParen => parenthesised endColumn deeper.disjunction after
    | .connective _ | .closeParen => .error (.malformed column (.unexpectedToken token))

/-- The level whose nested formulas are those of the given level. -/
def above (endColumn : Nat) (deeper : Level) : Level :=
  let unary := operand endColumn deeper
  let exclusive := joined .xor unary deeper.exclusive
  let conjunction := joined .and exclusive deeper.conjunction
  let disjunction := joined .or conjunction deeper.disjunction
  ⟨unary, exclusive, conjunction, disjunction⟩

/-- The level that has the given number of levels below it. -/
def withDepth (endColumn : Nat) : Nat → Level
  | 0 => above endColumn (tooDeep endColumn)
  | depth + 1 => above endColumn (withDepth endColumn depth)

end Level

/-- The formula that all of a non-empty list of lexemes stands for. -/
def ofLexemes (endColumn : Nat) (lexemes : List Lexeme) : Except ParseError Formula := do
  let (formula, rest) ← (Level.withDepth endColumn maxNesting).disjunction lexemes
  match rest with
  | [] => return formula
  | ⟨token, column⟩ :: _ => throw (.malformed column (.trailingToken token))

/-- The formula that a source stands for. -/
def parse (source : String) : Except ParseError Formula := do
  let found ← lexemes source
  if found = [] then throw .empty
  ofLexemes (source.length + 1) found

end ConfigTemplate.Formula
