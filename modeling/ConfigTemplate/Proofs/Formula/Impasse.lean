import ConfigTemplate.Attempt
import ConfigTemplate.Proofs.Formula.Cutting
import ConfigTemplate.Proofs.Formula.Derivation

/-!
# Where reading a formula comes to an end

The column of a syntax error is that of the first token with which the tokens no longer begin a formula,
or the one behind the source when all its tokens begin a formula and are none yet.

An `Impasse` of a phrase is such a place: what is in front of it begins the phrase, and no phrase goes
on with what comes next. Every reader that fails, other than for nesting too deeply, has come to an
impasse of its own phrase, and an impasse of a part is one of the whole.

Results:
1. `greedy_levelFor`: a reader stops where its phrase cannot go on.
2. `fails_levelFor`: a reader that fails has come to an impasse.
3. `parse_error_column`: what the column of a syntax error says about the tokens of a source.
-/

namespace ConfigTemplate

/-- Connectives bind with different strength. -/
theorem Connective.strength_inj {first second : Connective} (same : first.strength = second.strength) :
    first = second := by
  cases first <;> cases second <;> first | rfl | cases same

namespace Formula

open Level

/-! ## Beginnings of phrases -/

/-- The tokens are all of a formula, however deeply it nests. -/
def Complete (tokens : List Token) : Prop :=
  ∃ derivation : Derivation (.chain .or), derivation.tokens = tokens

/-- The tokens can be continued to a phrase, with tokens that can be written in a source. -/
def Begins (phrase : Phrase) (tokens : List Token) : Prop :=
  ∃ (derivation : Derivation phrase) (more : List Token),
    (∀ token ∈ more, token.Proper) ∧ derivation.tokens = tokens ++ more

/-- No phrase goes on behind the tokens in front with the next of the others. If there are no others,
no phrase ends there. -/
def Blocks (phrase : Phrase) (front rest : List Token) : Prop :=
  ∀ (derivation : Derivation phrase) (after others : List Token),
    Stops phrase.strength after → others.head? = rest.head? →
      derivation.tokens ++ after ≠ front ++ others

/-- Tokens begin a phrase, and no phrase goes on with those behind them. -/
structure Impasse (phrase : Phrase) (front rest : List Token) : Prop where
  begins : Begins phrase front
  blocks : Blocks phrase front rest

theorem Stops.of_head? {strength : Nat} {rest others : List Token} (stops : Stops strength rest)
    (same : others.head? = rest.head?) : Stops strength others :=
  fun connective found => stops connective (same ▸ found)

/-- The tokens with which an operand starts. -/
def Token.startsOperand : Token → Bool
  | .negation | .openParen | .constant _ | .name _ => true
  | .connective _ | .closeParen => false

namespace Impasse

variable {connective : Connective} {front rest : List Token}

theorem single (impasse : Impasse (.operandOf connective) front rest) :
    Impasse (.chain connective) front rest := by
  obtain ⟨⟨only, more, proper, same⟩, blocks⟩ := impasse
  refine ⟨⟨.single only, more, proper, same⟩, fun derivation after others stops next whole => ?_⟩
  cases derivation with
  | single only => exact blocks only after others stops.operand next whole
  | joined first further =>
    rw [Derivation.tokens, List.append_assoc] at whole
    exact blocks first _ others (stops_connective _ _) next whole

/-- An impasse of the second operand. -/
theorem joined (first : Derivation (.operandOf connective))
    (impasse : Impasse (.chain connective) front rest) :
    Impasse (.chain connective) (first.tokens ++ .connective connective :: front) rest := by
  obtain ⟨⟨second, more, proper, same⟩, blocks⟩ := impasse
  refine ⟨⟨.joined first second, more, proper, ?_⟩, fun derivation after others stops next whole => ?_⟩
  · rw [Derivation.tokens, same, List.append_assoc, List.cons_append]
  rw [List.append_assoc, List.cons_append] at whole
  cases derivation with
  | single only =>
    obtain ⟨-, rfl⟩ := tokens_append_inj only first whole stops.operand (stops_connective _ _)
    exact not_stops_connective _ _ stops
  | joined other further =>
    rw [Derivation.tokens, List.append_assoc, List.cons_append] at whole
    obtain ⟨-, behind⟩ :=
      tokens_append_inj other first whole (stops_connective _ _) (stops_connective _ _)
    exact blocks further after others stops next (List.cons.inj behind).2

theorem negation (impasse : Impasse .unary front rest) : Impasse .unary (.negation :: front) rest := by
  obtain ⟨⟨operand, more, proper, same⟩, blocks⟩ := impasse
  refine ⟨⟨.negation operand, more, proper, congrArg (_ :: ·) same⟩,
    fun derivation after others stops next whole => ?_⟩
  cases derivation with
  | negation operand => exact blocks operand after others stops next (List.cons.inj whole).2
  | primary inner => exact head_ne_negation inner _ _ whole

/-- A unary phrase that begins with a parenthesis goes on with a formula. -/
theorem unary_openParen {derivation : Derivation .unary} {after others : List Token}
    (whole : derivation.tokens ++ after = .openParen :: others) :
    ∃ inner : Derivation (.chain .or), inner.tokens ++ .closeParen :: after = others := by
  cases derivation with
  | negation operand => cases whole
  | primary primary =>
    cases primary with
    | constant value | name text => cases whole
    | parenthesised inner =>
      refine ⟨inner, ?_⟩
      simpa [Derivation.tokens] using whole

/-- An impasse inside of parentheses. -/
theorem opened (impasse : Impasse (.chain .or) front rest) :
    Impasse .unary (.openParen :: front) rest := by
  obtain ⟨⟨inner, more, proper, same⟩, blocks⟩ := impasse
  refine ⟨⟨.primary (.parenthesised inner), more ++ [.closeParen], ?_, ?_⟩,
    fun derivation after others stops next whole => ?_⟩
  · exact List.forall_mem_append.2 ⟨proper, List.forall_mem_singleton.2 nofun⟩
  · simp [Derivation.tokens, same]
  · obtain ⟨inner, whole⟩ := unary_openParen whole
    exact blocks inner _ others (stops_closeParen _ _) next whole

/-- A formula in parentheses that are not closed behind it. -/
theorem unclosed (inner : Derivation (.chain .or)) (stops : Stops 0 rest)
    (missing : rest.head? ≠ some .closeParen) :
    Impasse .unary (.openParen :: inner.tokens) rest := by
  refine ⟨⟨.primary (.parenthesised inner), [.closeParen], List.forall_mem_singleton.2 nofun, rfl⟩,
    fun derivation after others _ next whole => ?_⟩
  obtain ⟨other, whole⟩ := unary_openParen whole
  obtain ⟨-, rfl⟩ := tokens_append_inj other inner whole (stops_closeParen _ _) (stops.of_head? next)
  exact missing next.symm

theorem head?_unary (derivation : Derivation .unary) :
    ∃ token, derivation.tokens.head? = some token ∧ token.startsOperand := by
  cases derivation with
  | negation operand => exact ⟨_, rfl, rfl⟩
  | primary inner => cases inner <;> exact ⟨_, rfl, rfl⟩

/-- No operand starts here. -/
theorem missing (unfit : ∀ token ∈ rest.head?, ¬ token.startsOperand) : Impasse .unary [] rest := by
  refine ⟨⟨.primary (.constant true), [.constant true], List.forall_mem_singleton.2 nofun, rfl⟩,
    fun derivation after others _ next whole => ?_⟩
  obtain ⟨token, first, starts⟩ := head?_unary derivation
  have found : others.head? = some token := by
    rw [← List.nil_append others, ← whole, List.head?_append, first]
    rfl
  exact unfit token (next ▸ found) starts

end Impasse

/-! ## Readers -/

/-- Where the reader stops, the phrase cannot go on. -/
def Greedy (phrase : Phrase) (reader : Reader) : Prop :=
  ∀ lexemes formula rest, reader lexemes = .ok (formula, rest) →
    Stops phrase.strength (rest.map Lexeme.token)

/-- A reader that fails has come to an impasse, unless the formula nests too deeply. -/
def Fails (phrase : Phrase) (endColumn : Nat) (reader : Reader) : Prop :=
  ∀ lexemes column fault, reader lexemes = .error (.malformed column fault) →
    fault ≠ .nestedTooDeeply → ∃ front rest, lexemes = front ++ rest ∧
      column = columnOf endColumn rest ∧
      Impasse phrase (front.map Lexeme.token) (rest.map Lexeme.token)

section Joined

variable {connective : Connective} {left right : Reader} {lexemes rest : List Lexeme}
  {formula : Formula} {cause : ParseError}

theorem joined_eq_ok (found : joined connective left right lexemes = .ok (formula, rest)) :
    (left lexemes = .ok (formula, rest) ∧
        (rest.map Lexeme.token).head? ≠ some (.connective connective)) ∨
      ∃ first column after second, left lexemes = .ok (first, ⟨.connective connective, column⟩ :: after) ∧
        right after = .ok (second, rest) := by
  unfold joined at found
  obtain ⟨⟨first, behind⟩, leftFound, found⟩ := except_bind_eq_ok found
  dsimp only at found
  split at found
  · rename_i other column after
    split at found
    · rename_i same
      subst same
      obtain ⟨⟨second, _⟩, rightFound, found⟩ := except_bind_eq_ok found
      cases found
      exact .inr ⟨first, column, after, second, leftFound, rightFound⟩
    · rename_i differs
      cases found
      refine .inl ⟨leftFound, fun same => differs ?_⟩
      simpa using same
  · rename_i plain
    cases found
    refine .inl ⟨leftFound, fun same => ?_⟩
    cases rest with
    | nil => cases same
    | cons next others =>
      obtain ⟨token, column⟩ := next
      obtain rfl : token = .connective connective := by simpa using same
      exact plain connective column others rfl

theorem joined_eq_error (fails : joined connective left right lexemes = .error cause) :
    left lexemes = .error cause ∨
      ∃ first column after, left lexemes = .ok (first, ⟨.connective connective, column⟩ :: after) ∧
        right after = .error cause := by
  unfold joined at fails
  rcases except_bind_eq_error fails with leftFails | ⟨⟨first, behind⟩, leftFound, later⟩
  · exact .inl leftFails
  dsimp only at later
  split at later
  · rename_i other column after
    split at later
    · rename_i same
      subst same
      rcases except_bind_eq_error later with rightFails | ⟨_, -, last⟩
      · exact .inr ⟨first, column, after, leftFound, rightFails⟩
      · cases last
    · cases later
  · cases later

theorem greedy_joined (greedyLeft : Greedy (.operandOf connective) left)
    (greedyRight : Greedy (.chain connective) right) :
    Greedy (.chain connective) (joined connective left right) := by
  intro lexemes formula rest found
  rcases joined_eq_ok found with ⟨leftFound, apart⟩ | ⟨_, _, after, second, -, rightFound⟩
  · intro other next
    have weaker := greedyLeft lexemes formula rest leftFound other next
    rw [strength_operandOf] at weaker
    refine Nat.lt_of_le_of_ne (Nat.le_of_lt_succ weaker) fun same => apart ?_
    rw [next, Connective.strength_inj same]
  · exact greedyRight after second rest rightFound

theorem fails_joined {bound endColumn : Nat} (sound : Sound (.operandOf connective) bound left)
    (failsLeft : Fails (.operandOf connective) endColumn left)
    (failsRight : Fails (.chain connective) endColumn right) :
    Fails (.chain connective) endColumn (joined connective left right) := by
  intro lexemes column fault fails shallow
  rcases joined_eq_error fails with leftFails | ⟨first, _, after, leftFound, rightFails⟩
  · obtain ⟨front, rest, rfl, rfl, impasse⟩ := failsLeft lexemes column fault leftFails shallow
    exact ⟨front, rest, rfl, rfl, impasse.single⟩
  · obtain ⟨derivation, -, -, consumed, tokens, rfl⟩ := sound lexemes first _ leftFound
    obtain ⟨front, rest, rfl, rfl, impasse⟩ := failsRight after column fault rightFails shallow
    refine ⟨consumed ++ _ :: front, rest, by rw [List.append_assoc]; rfl, rfl, ?_⟩
    rw [List.map_append, List.map_cons, tokens]
    exact impasse.joined derivation

end Joined

theorem fails_operand {bound endColumn : Nat} {deeper : Level}
    (sound : Sound (.chain .or) bound deeper.disjunction)
    (greedy : Greedy (.chain .or) deeper.disjunction)
    (failsUnary : Fails .unary endColumn deeper.unary)
    (failsDisjunction : Fails (.chain .or) endColumn deeper.disjunction) :
    Fails .unary endColumn (operand endColumn deeper) := by
  intro lexemes column fault fails shallow
  match lexemes with
  | [] =>
    cases fails
    exact ⟨[], [], rfl, rfl, .missing nofun⟩
  | ⟨.constant value, place⟩ :: after | ⟨.name text, place⟩ :: after => cases fails
  | ⟨.connective other, place⟩ :: after | ⟨.closeParen, place⟩ :: after =>
    cases fails
    refine ⟨[], _, rfl, rfl, .missing ?_⟩
    rintro token next
    cases next
    exact nofun
  | ⟨.negation, place⟩ :: after =>
    cases inner : deeper.unary after with
    | ok result => simp [operand, inner, bind, Except.bind, pure, Except.pure] at fails
    | error cause =>
      simp only [operand, inner, bind, Except.bind] at fails
      cases fails
      obtain ⟨front, rest, rfl, rfl, impasse⟩ := failsUnary after column fault inner shallow
      exact ⟨⟨.negation, place⟩ :: front, rest, rfl, rfl, impasse.negation⟩
  | ⟨.openParen, place⟩ :: after =>
    simp only [operand, parenthesised] at fails
    cases inner : deeper.disjunction after with
    | error cause =>
      simp only [inner, bind, Except.bind] at fails
      cases fails
      obtain ⟨front, rest, rfl, rfl, impasse⟩ := failsDisjunction after column fault inner shallow
      exact ⟨⟨.openParen, place⟩ :: front, rest, rfl, rfl, impasse.opened⟩
    | ok result =>
      obtain ⟨content, rest⟩ := result
      obtain ⟨derivation, -, -, consumed, tokens, rfl⟩ := sound after content rest inner
      have stops := greedy _ content rest inner
      simp only [inner, bind, Except.bind] at fails
      split at fails
      · cases fails
      · rename_i unclosed
        cases fails
        refine ⟨⟨.openParen, place⟩ :: consumed, rest, rfl, rfl, ?_⟩
        rw [List.map_cons, tokens]
        refine .unclosed derivation stops fun next => ?_
        cases rest with
        | nil => cases next
        | cons first others =>
          obtain ⟨token, column⟩ := first
          obtain rfl : token = .closeParen := by simpa using next
          exact unclosed column others rfl

/-- What holds of the operands of a level, and of two phrases that are joined, holds of all its
chains. -/
theorem chains_of_unary {endColumn : Nat} {deeper : Level} (holds : Phrase → Reader → Prop)
    (unary : holds .unary (operand endColumn deeper))
    (joins : ∀ connective left, holds (.operandOf connective) left →
      holds (.chain connective) (joined connective left (deeper.reader (.chain connective)))) :
    ∀ connective, holds (.chain connective)
      ((above endColumn deeper).reader (.chain connective)) := by
  have exclusive := joins .xor _ unary
  have conjunction := joins .and _ exclusive
  have disjunction := joins .or _ conjunction
  intro connective
  cases connective with
  | xor => exact exclusive
  | and => exact conjunction
  | or => exact disjunction

theorem greedy_unary (reader : Reader) : Greedy .unary reader := by
  intro lexemes formula rest _ connective _
  cases connective <;> decide

theorem greedy_levelFor (endColumn bound : Nat) (connective : Connective) :
    Greedy (.chain connective) ((levelFor endColumn bound).reader (.chain connective)) := by
  induction bound generalizing connective with
  | zero =>
    intro lexemes formula rest found
    rw [levelFor, reader_tooDeep] at found
    cases found
  | succ bound ih =>
    exact chains_of_unary Greedy (greedy_unary _)
      (fun next left greedy => greedy_joined greedy (ih next)) connective

/-- Every reader of a level that fails has come to an impasse. -/
theorem fails_levelFor (endColumn bound : Nat) :
    Fails .unary endColumn ((levelFor endColumn bound).reader .unary) ∧
      ∀ connective, Fails (.chain connective) endColumn
        ((levelFor endColumn bound).reader (.chain connective)) := by
  induction bound with
  | zero =>
    refine ⟨fun lexemes column fault fails shallow => ?_,
      fun connective lexemes column fault fails shallow => ?_⟩
    all_goals
      rw [levelFor, reader_tooDeep] at fails
      cases fails
      exact absurd rfl shallow
  | succ bound ih =>
    obtain ⟨deeperUnary, deeperChain⟩ := ih
    obtain ⟨soundUnary, soundChain⟩ := sound_levelFor endColumn bound
    have unary : Fails .unary endColumn (operand endColumn (levelFor endColumn bound)) :=
      fails_operand (soundChain .or) (greedy_levelFor endColumn bound .or) deeperUnary
        (deeperChain .or)
    -- Whether the right operand fails matters only behind a left one that is derived.
    have chains := chains_of_unary
      (fun phrase reader => Sound phrase (bound + 1) reader ∧ Fails phrase endColumn reader)
      ⟨sound_operand soundUnary (soundChain .or), unary⟩
      fun connective left operands => ⟨sound_joined operands.1 (soundChain connective),
        fails_joined operands.1 operands.2 (deeperChain connective)⟩
    exact ⟨unary, fun connective => (chains connective).2⟩

/-! ## The column of an error -/

/-- The columns of lexemes increase, and lie inside of the text that is written with them. -/
theorem Spelled.columns {column : Nat} {cs : List Char} {lexemes : List Lexeme}
    (spelled : Spelled column cs lexemes) :
    lexemes.Pairwise (fun first second => first.column < second.column) ∧
      ∀ lexeme ∈ lexemes, column ≤ lexeme.column ∧ lexeme.column < column + cs.length := by
  induction spelled with
  | nil => exact ⟨.nil, nofun⟩
  | blank _ _ ih =>
    obtain ⟨increase, inside⟩ := ih
    refine ⟨increase, fun lexeme member => ?_⟩
    have := inside lexeme member
    rw [List.length_cons]
    omega
  | @token column token rest lexemes proper _ _ ih =>
    obtain ⟨increase, inside⟩ := ih
    obtain ⟨c, cs, starts, -⟩ := Token.spelling_starts proper
    have wide : token.spelling.length = cs.length + 1 := by
      rw [← String.length_toList, starts, List.length_cons]
    have bounds : ∀ lexeme ∈ lexemes,
        column < lexeme.column ∧ lexeme.column < column + (token.spelling.length + rest.length) := by
      intro lexeme member
      have := inside lexeme member
      omega
    rw [List.length_append, String.length_toList]
    refine ⟨List.pairwise_cons.2 ⟨fun lexeme member => (bounds lexeme member).1, increase⟩,
      List.forall_mem_cons.2 ⟨⟨Nat.le_refl _, ?_⟩, fun lexeme member => ?_⟩⟩
    · show column < _
      omega
    · exact ⟨Nat.le_of_lt (bounds lexeme member).1, (bounds lexeme member).2⟩

/-- When the lexemes of a source are refused, they begin a formula up to some place, and are no
beginning of one with what stands there. -/
theorem ofLexemes_eq_error {endColumn column : Nat} {found : List Lexeme} {fault : Fault}
    (fails : ofLexemes endColumn found = .error (.malformed column fault))
    (shallow : fault ≠ .nestedTooDeeply) :
    ∃ front rest, found = front ++ rest ∧ column = columnOf endColumn rest ∧
      Begins (.chain .or) (front.map Lexeme.token) ∧
      ∀ others, others.head? = (rest.map Lexeme.token).head? →
        ¬ Complete (front.map Lexeme.token ++ others) := by
  unfold ofLexemes at fails
  rw [maxNesting, withDepth_eq_levelFor] at fails
  have reader : (levelFor endColumn 257).disjunction =
      (levelFor endColumn 257).reader (.chain .or) := rfl
  rw [reader] at fails
  cases reads : (levelFor endColumn 257).reader (.chain .or) found with
  | error cause =>
    rw [reads] at fails
    cases fails
    obtain ⟨front, rest, rfl, rfl, begins, blocks⟩ :=
      (fails_levelFor endColumn 257).2 .or found column fault reads shallow
    refine ⟨front, rest, rfl, rfl, begins, ?_⟩
    rintro others next ⟨derivation, whole⟩
    refine blocks derivation [] others (stops_nil _) next ?_
    rw [List.append_nil, whole]
  | ok result =>
    obtain ⟨formula, rest⟩ := result
    obtain ⟨derivation, -, -, consumed, tokens, rfl⟩ :=
      (sound_levelFor endColumn 257).2 .or found formula rest reads
    have stops := greedy_levelFor endColumn 257 .or _ formula rest reads
    rw [reads] at fails
    cases rest with
    | nil => cases fails
    | cons next rest =>
      cases fails
      refine ⟨consumed, _, rfl, rfl, ⟨derivation, [], List.forall_mem_nil _, ?_⟩, ?_⟩
      · rw [tokens, List.append_nil]
      · rintro others same ⟨whole, further⟩
        rw [tokens, ← List.append_nil whole.tokens] at further
        obtain ⟨-, rfl⟩ := tokens_append_inj whole derivation further (stops_nil _) (stops.of_head? same)
        cases same

/-- Lexemes whose columns increase are told apart by them. -/
theorem position_of_column {lexemes : List Lexeme}
    (increase : lexemes.Pairwise (fun first second => first.column < second.column)) {i j : Nat}
    {first second : Lexeme} (firstFound : lexemes[i]? = some first)
    (secondFound : lexemes[j]? = some second) (same : first.column = second.column) : i = j := by
  obtain ⟨insideFirst, rfl⟩ := List.getElem?_eq_some_iff.1 firstFound
  obtain ⟨insideSecond, rfl⟩ := List.getElem?_eq_some_iff.1 secondFound
  rw [List.pairwise_iff_getElem] at increase
  rcases Nat.lt_trichotomy i j with before | rfl | behind
  · exact absurd same (Nat.ne_of_lt (increase i j insideFirst insideSecond before))
  · rfl
  · exact absurd same.symm (Nat.ne_of_lt (increase j i insideSecond insideFirst behind))

theorem ofLexemes_eq_error_of_parse {source : String} {found : List Lexeme} {column : Nat}
    {fault : Fault} (cut : lexemes source = .ok found)
    (fails : parse source = .error (.malformed column fault)) :
    ofLexemes (source.length + 1) found = .error (.malformed column fault) := by
  unfold parse at fails
  rw [cut] at fails
  by_cases empty : found = []
  · subst empty
    cases fails
  · simpa only [bind, Except.bind, empty, if_false, pure, Except.pure] using fails

/-- If a syntax error is not about nesting, its column is that of a token or the one behind the source.
The tokens in front of that token can be continued to a formula, but not the tokens up to and including
it. If there is no such token, all tokens can be continued to a formula, but are none themselves. -/
theorem parse_error_column {source : String} {found : List Lexeme} {column : Nat} {fault : Fault}
    (cut : lexemes source = .ok found) (fails : parse source = .error (.malformed column fault))
    (shallow : fault ≠ .nestedTooDeeply) :
    let tokens := found.map Lexeme.token
    (∀ i lexeme, found[i]? = some lexeme → column = lexeme.column →
      Begins (.chain .or) (tokens.take i) ∧ ∀ more, ¬ Complete (tokens.take (i + 1) ++ more)) ∧
    (column = source.length + 1 → Begins (.chain .or) tokens ∧ ¬ Complete tokens) ∧
    (column = source.length + 1 ∨ ∃ lexeme ∈ found, column = lexeme.column) := by
  intro tokens
  obtain ⟨increase, inside⟩ := (spelled_of_lexemesFrom cut).columns
  have before_end : ∀ lexeme ∈ found, lexeme.column ≠ source.length + 1 := by
    intro lexeme member
    have := (inside lexeme member).2
    rw [String.length_toList] at this
    omega
  obtain ⟨front, rest, rfl, rfl, begins, blocks⟩ :=
    ofLexemes_eq_error (ofLexemes_eq_error_of_parse cut fails) shallow
  cases rest with
  | nil =>
    rw [List.append_nil] at before_end
    have all : tokens = front.map Lexeme.token := congrArg _ (List.append_nil front)
    refine ⟨fun i lexeme found same => ?_, fun _ => ⟨all ▸ begins, ?_⟩, .inl rfl⟩
    · rw [List.append_nil] at found
      exact absurd same.symm (before_end lexeme (List.mem_of_getElem? found))
    · rw [all, ← List.append_nil (front.map Lexeme.token)]
      exact blocks [] rfl
  | cons next behind =>
    have split : tokens = front.map Lexeme.token ++ next.token :: behind.map Lexeme.token :=
      List.map_append
    have placed : (front ++ next :: behind)[front.length]? = some next := by simp
    refine ⟨fun i lexeme found same => ?_, fun same => ?_, .inr ⟨next, by simp, rfl⟩⟩
    · obtain rfl := position_of_column increase found placed same.symm
      have taken : tokens.take front.length = front.map Lexeme.token := by simp [split]
      have further : tokens.take (front.length + 1) = front.map Lexeme.token ++ [next.token] := by
        rw [split, ← List.length_map Lexeme.token, List.take_length_add_append]
        rfl
      refine ⟨taken ▸ begins, fun more => ?_⟩
      rw [further, List.append_assoc]
      exact blocks (next.token :: more) rfl
    · exact absurd same (before_end next (by simp))

/-- The first parenthesis that closes in `a && (b ^^ )` stands where an operand should, and in `!(a` one
is missing. -/
theorem exMisplaced_column :
    let front : List Token := [.name "a", .connective .and, .openParen, .name "b", .connective .xor]
    let tokens : List Token := [.negation, .openParen, .name "a"]
    (parse "a && (b ^^ )" = .error (.malformed 12 (.unexpectedToken .closeParen)) ∧
      Begins (.chain .or) front ∧ ∀ more, ¬ Complete (front ++ .closeParen :: more)) ∧
    parse "!(a" = .error (.malformed 4 .missingCloseParen) ∧
      Begins (.chain .or) tokens ∧ ¬ Complete tokens := by
  have cut : lexemes "a && (b ^^ )" = .ok [⟨.name "a", 1⟩, ⟨.connective .and, 3⟩, ⟨.openParen, 6⟩,
      ⟨.name "b", 7⟩, ⟨.connective .xor, 9⟩, ⟨.closeParen, 12⟩] := by decide +kernel
  have fails : parse "a && (b ^^ )" = .error (.malformed 12 (.unexpectedToken .closeParen)) := by
    decide +kernel
  have cutOpen : lexemes "!(a" = .ok [⟨.negation, 1⟩, ⟨.openParen, 2⟩, ⟨.name "a", 3⟩] := by
    decide +kernel
  have failsOpen : parse "!(a" = .error (.malformed 4 .missingCloseParen) := by decide +kernel
  obtain ⟨inside, -, -⟩ := parse_error_column cut fails nofun
  obtain ⟨-, atEnd, -⟩ := parse_error_column cutOpen failsOpen nofun
  exact ⟨⟨fails, inside 5 _ rfl rfl⟩, failsOpen, atEnd rfl⟩

end Formula

end ConfigTemplate
