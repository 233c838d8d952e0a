import ConfigTemplate.Markup.Error
import ConfigTemplate.Markup.Symbol

/-!
# Reading tokens

A reader cuts the symbols of a template into tokens. Outside of markup it reads literal text and
drops comments; between `<` and `>` it reads names, quoted values, equals signs and slashes. A file
can be included at any moment: its symbols come next, and those of the including file after them.
Reading goes on behind an error.

Every call of `Reader.next` leaves a suffix of the input (`next_follows`), and a shorter one when it
finds a token (`next_progress`).
-/

namespace ConfigTemplate.Markup

/-- Where in the template a reader is. -/
inductive Mode where
  | outside
  /-- Before the `<` of an element, behind the text that it ended. -/
  | atElement
  | insideElement
  | comment
  /-- The end of the input was reached. -/
  | finished
deriving DecidableEq, Repr

structure Reader where
  input : List Symbol
  /-- The directory against which the paths in the template itself are read. -/
  root : String
  line : Nat
  mode : Mode
  /-- Tokens that were given back, to be read before the input. -/
  pushed : List Token
deriving DecidableEq, Repr

namespace Reader

/-- A reader at the start of a template. -/
def ofText (text directory : String) : Reader :=
  ⟨Symbol.ofText text, directory, 1, .outside, []⟩

/-- The directory of the innermost file that is being read. -/
def directory (r : Reader) : String :=
  match Symbol.innermost? r.input with
  | some file => Location.path file.dropLast
  | none => r.root

/-- Gives a token back. -/
def push (r : Reader) (token : Token) : Reader := { r with pushed := token :: r.pushed }

/-! ## Including files -/

/-- The location and the text of the file at a path. -/
def openFile (store : Store) (path : String) : Except FileError (Location × String) := do
  let location ← store.resolve path
  return (location, ← store.textAt location)

/-- Puts a file before the input. Its path is read in the directory of the file that includes it. -/
def includeFile (store : Store) (r : Reader) (path : String) : Except ParseError Reader :=
  let joined := Path.join r.directory path
  match openFile store joined with
  | .error cause => .error (.unreadable r.line joined cause)
  | .ok (location, text) =>
    if .endOf location ∈ r.input then .error (.malformed r.line (.recursiveInclude joined))
    else .ok { r with input := Symbol.ofText text ++ .endOf location :: r.input }

theorem openFile_eq_ok {store : Store} {path text : String} {location : Location}
    (opens : openFile store path = .ok (location, text)) :
    store.resolve path = .ok location ∧ store.textAt location = .ok text := by
  unfold openFile at opens
  cases resolved : store.resolve path with
  | error cause => simp [resolved, bind, Except.bind] at opens
  | ok place =>
    cases held : store.textAt place with
    | error cause => simp [resolved, held, bind, Except.bind] at opens
    | ok content =>
      simp only [resolved, held, bind, Except.bind, pure, Except.pure, Except.ok.injEq,
        Prod.mk.injEq] at opens
      obtain ⟨rfl, rfl⟩ := opens
      exact ⟨rfl, held⟩

/-- A file is put before the input if it can be read and is not being read already. -/
theorem includeFile_eq_ok {store : Store} {r included : Reader} {path : String} :
    includeFile store r path = .ok included ↔
      ∃ location text, openFile store (Path.join r.directory path) = .ok (location, text) ∧
        .endOf location ∉ r.input ∧
        included = { r with input := Symbol.ofText text ++ .endOf location :: r.input } := by
  unfold includeFile
  dsimp only
  split
  · rename_i opened
    simp [opened]
  · rename_i location text opened
    simp only [opened, Except.ok.injEq, Prod.mk.injEq]
    split
    · rename_i reading
      exact ⟨nofun, fun ⟨_, _, ⟨rfl, rfl⟩, free, _⟩ => absurd reading free⟩
    · rename_i free
      exact ⟨fun same => ⟨location, text, ⟨rfl, rfl⟩, free, (Except.ok.inj same).symm⟩,
        fun ⟨_, _, ⟨rfl, rfl⟩, _, same⟩ => congrArg Except.ok same.symm⟩

/-! ## Reading -/

/-- What reading a token comes to: the token, nothing at the end, or an error, and the reader
afterwards. -/
abbrev Outcome := Except ParseError (Option Token) × Reader

/-- The input ended in something that it should not end in. -/
def cutOff (r : Reader) (line : Nat) (what : Unfinished) : Outcome :=
  (.error (.unfinished line what), { r with input := [], line, mode := .finished })

/-- Reads the `<` of an element. -/
def readElementStart (r : Reader) : Outcome :=
  match Symbol.nextCharacter r.input with
  | .char c :: rest =>
    if c = '<' then (.ok (some .openMarkup), { r with input := rest, mode := .insideElement })
    else (.error (.malformed r.line (.notAtElement c)), { r with input := rest })
  | _ => r.cutOff r.line .element

/-- Reads a token between `<` and `>`. -/
def readInside (r : Reader) : Outcome :=
  let (line, input) := Symbol.blanks r.line r.input
  let r := { r with line }
  match input with
  | .char c :: rest =>
    if c = '=' then (.ok (some .equals), { r with input := rest })
    else if c = '/' then (.ok (some .slash), { r with input := rest })
    else if c = '>' then (.ok (some .closeMarkup), { r with input := rest, mode := .outside })
    else if c = '"' then
      let value := Symbol.quoted false line rest
      match value.rest with
      | [] => r.cutOff value.line .quoted
      | _ :: after =>
        (.ok (some (.quoted (String.ofList value.text))),
          { r with input := after, line := value.line })
    else if Text.isWordStart c then
      let tail := Symbol.word line rest
      (.ok (some (.identifier (String.ofList (c :: tail.text)))), { r with input := tail.rest })
    else (.error (.malformed line (.strangeInElement c)), { r with input := rest })
  | _ => r.cutOff line .element

/-- Reads a token outside of markup. -/
def readOutside (r : Reader) : Outcome :=
  let found := Symbol.literal r.line r.input
  let content := Token.text (String.ofList found.text)
  match _body : Symbol.commentBody? found.rest with
  | some body =>
    if found.text = [] then
      match _after : Symbol.skipComment found.line body with
      | (line, none) => r.cutOff line .comment
      | (line, some rest) => readOutside { r with input := rest, line, mode := .outside }
    else
      (.ok (some content), { r with input := body, line := found.line, mode := .comment })
  | none =>
    match found.rest with
    | [] =>
      (.ok (if found.text = [] then none else some content),
        { r with input := [], line := found.line, mode := .finished })
    | first :: rest =>
      if found.text = [] then
        (.ok (some .openMarkup), { r with input := rest, mode := .insideElement })
      else
        (.ok (some content),
          { r with input := first :: rest, line := found.line, mode := .atElement })
termination_by r.input.length
decreasing_by
  obtain ⟨symbol, shorter⟩ := Symbol.commentBody?_suffix _body
  have ahead := (Symbol.literal_suffix r.line r.input).length_le
  have skipped := (Symbol.skipComment_suffix _after).length_le
  have lost := shorter.length_le
  simp only [List.length_cons] at lost
  exact Nat.lt_of_le_of_lt skipped (Nat.lt_of_lt_of_le lost ahead)

/-- Reads a token from the input. -/
def read (r : Reader) : Outcome :=
  match r.mode with
  | .outside => r.readOutside
  | .atElement => r.readElementStart
  | .insideElement => r.readInside
  | .comment =>
    match Symbol.skipComment r.line r.input with
    | (line, none) => r.cutOff line .comment
    | (line, some rest) => readOutside { r with input := rest, line, mode := .outside }
  | .finished => (.ok none, r)

/-- Reads the next token: the one given back last, or one from the input. -/
def next (r : Reader) : Outcome :=
  match r.pushed with
  | token :: rest => (.ok (some token), { r with pushed := rest })
  | [] => r.read

/-- The token that is given back is the next one, and nothing else changes. -/
@[simp] theorem next_push (r : Reader) (token : Token) :
    (r.push token).next = (.ok (some token), r) := rfl

/-! ## What a reader leaves -/

/-- `later` comes from `r` by reading. -/
structure Follows (later r : Reader) : Prop where
  input : later.input <:+ r.input
  pushed : later.pushed <:+ r.pushed

theorem Follows.refl (r : Reader) : Follows r r := ⟨List.suffix_refl _, List.suffix_refl _⟩

theorem Follows.trans {a b c : Reader} (ab : Follows a b) (bc : Follows b c) : Follows a c :=
  ⟨ab.input.trans bc.input, ab.pushed.trans bc.pushed⟩

/-- What a call of `read` leaves of its input: a suffix, and a shorter one behind a token. The `>` of
an element is the very symbol before what is left. -/
structure Leaves (r : Reader) (outcome : Outcome) : Prop where
  suffix : outcome.2.input <:+ r.input
  pushed : outcome.2.pushed = r.pushed
  shorter : ∀ token, outcome.1 = .ok (some token) →
    ∃ symbol, symbol :: outcome.2.input <:+ r.input
  closing : outcome.1 = .ok (some .closeMarkup) → .char '>' :: outcome.2.input <:+ r.input
  ended : outcome.1 = .ok none → outcome.2.mode = .finished

theorem cutOff_leaves (r start : Reader) (line : Nat) (what : Unfinished)
    (pushed : r.pushed = start.pushed) : Leaves start (r.cutOff line what) :=
  ⟨List.nil_suffix, pushed, nofun, nofun, nofun⟩

theorem readElementStart_leaves (r : Reader) : Leaves r r.readElementStart := by
  have ahead := Symbol.nextCharacter_suffix r.input
  unfold readElementStart
  split
  · rename_i c rest same
    rw [same] at ahead
    have left : rest <:+ r.input := (List.suffix_cons _ _).trans ahead
    split
    · exact ⟨left, rfl, fun _ _ => ⟨_, ahead⟩, nofun, nofun⟩
    · exact ⟨left, rfl, nofun, nofun, nofun⟩
  · exact cutOff_leaves r r _ _ rfl

theorem readInside_leaves (r : Reader) : Leaves r r.readInside := by
  have ahead := Symbol.blanks_suffix r.line r.input
  unfold readInside
  generalize Symbol.blanks r.line r.input = skipped at ahead
  obtain ⟨line, input⟩ := skipped
  dsimp only at ahead ⊢
  split
  · rename_i c rest
    have left : rest <:+ r.input := (List.suffix_cons _ _).trans ahead
    split
    · exact ⟨left, rfl, fun _ _ => ⟨_, ahead⟩, nofun, nofun⟩
    split
    · exact ⟨left, rfl, fun _ _ => ⟨_, ahead⟩, nofun, nofun⟩
    split
    · rename_i same
      exact ⟨left, rfl, fun _ _ => ⟨_, ahead⟩, fun _ => same ▸ ahead, nofun⟩
    split
    · have value := Symbol.quoted_suffix false line rest
      split
      · exact cutOff_leaves _ _ _ _ rfl
      · rename_i after same
        rw [same] at value
        have shorter := value.trans left
        exact ⟨(List.suffix_cons _ _).trans shorter, rfl, fun _ _ => ⟨_, shorter⟩, nofun, nofun⟩
    split
    · have tail := Symbol.word_suffix line rest
      exact ⟨tail.trans left, rfl, fun _ _ => Symbol.exists_cons_suffix ahead tail, nofun,
        nofun⟩
    · exact ⟨left, rfl, nofun, nofun, nofun⟩
  · exact cutOff_leaves _ _ _ _ rfl

theorem Leaves.of_suffix {r later : Reader} {outcome : Outcome} (leaves : Leaves later outcome)
    (input : later.input <:+ r.input) (pushed : later.pushed = r.pushed) : Leaves r outcome where
  suffix := leaves.suffix.trans input
  pushed := leaves.pushed.trans pushed
  shorter token found :=
    let ⟨symbol, suffix⟩ := leaves.shorter token found
    ⟨symbol, suffix.trans input⟩
  closing found := (leaves.closing found).trans input
  ended := leaves.ended

theorem readOutside_leaves (r : Reader) : Leaves r r.readOutside := by
  fun_induction readOutside r with
  | case1 r found body _body blank line _after => exact cutOff_leaves _ _ _ _ rfl
  | case2 r found body _body blank line rest _after ih =>
    have ahead := Symbol.literal_suffix r.line r.input
    obtain ⟨symbol, behind⟩ := Symbol.commentBody?_suffix _body
    exact ih.of_suffix (((Symbol.skipComment_suffix _after).trans (List.suffix_cons _ _)).trans
      (behind.trans ahead)) rfl
  | case3 r found content body _body blank =>
    have ahead := Symbol.literal_suffix r.line r.input
    obtain ⟨symbol, behind⟩ := Symbol.commentBody?_suffix _body
    have shorter := behind.trans ahead
    exact ⟨(List.suffix_cons _ _).trans shorter, rfl, fun _ _ => ⟨symbol, shorter⟩,
      fun same => by simp [content] at same, nofun⟩
  | case4 r found content _body atEnd =>
    refine ⟨List.nil_suffix, rfl, fun token same => ?_, fun same => ?_, fun _ => rfl⟩
    · by_cases blank : found.text = []
      · simp [blank] at same
      · have ahead := Symbol.literal_progress blank
        rwa [show (Symbol.literal r.line r.input).rest = [] from atEnd] at ahead
    · by_cases blank : found.text = [] <;> simp [blank, content] at same
  | case5 r found _body first rest same blank =>
    have ahead := Symbol.literal_suffix r.line r.input
    rw [show (Symbol.literal r.line r.input).rest = first :: rest from same] at ahead
    exact ⟨(List.suffix_cons _ _).trans ahead, rfl, fun _ _ => ⟨first, ahead⟩, nofun, nofun⟩
  | case6 r found content _body first rest same blank =>
    have ahead := Symbol.literal_suffix r.line r.input
    have shorter := Symbol.literal_progress blank
    rw [show (Symbol.literal r.line r.input).rest = first :: rest from same] at ahead shorter
    exact ⟨ahead, rfl, fun _ _ => shorter, fun same => by simp [content] at same, nofun⟩

theorem read_leaves (r : Reader) : Leaves r r.read := by
  unfold read
  split
  · exact r.readOutside_leaves
  · exact r.readElementStart_leaves
  · exact r.readInside_leaves
  · split
    · exact cutOff_leaves _ _ _ _ rfl
    · rename_i rest same
      exact (readOutside_leaves _).of_suffix (Symbol.skipComment_suffix same) rfl
  · rename_i mode
    exact ⟨List.suffix_refl _, rfl, nofun, nofun, fun _ => mode⟩

/-- Behind the end of the input there is nothing more to read. -/
theorem next_of_next_eq_none {r after : Reader} (found : r.next = (.ok none, after)) :
    after.next = (.ok none, after) := by
  unfold next at found
  split at found
  · cases found
  · rename_i pushed
    have leaves := r.read_leaves
    rw [found] at leaves
    have kept : after.pushed = [] := leaves.pushed.trans pushed
    have finished : after.mode = .finished := leaves.ended rfl
    simp [next, kept, read, finished]

/-- Reading a token leaves a suffix of the input and of the tokens given back. -/
theorem next_follows (r : Reader) : Follows r.next.2 r := by
  unfold next
  split
  · rename_i token rest same
    exact ⟨List.suffix_refl _, same ▸ List.suffix_cons _ _⟩
  · exact ⟨r.read_leaves.suffix, r.read_leaves.pushed ▸ List.suffix_refl _⟩

/-- A token was given back, or it takes symbols off the input. -/
theorem next_progress {r after : Reader} {token : Token}
    (found : r.next = (.ok (some token), after)) :
    (after.pushed.length < r.pushed.length ∧ after.input = r.input) ∨
      ∃ symbol, symbol :: after.input <:+ r.input := by
  unfold next at found
  split at found
  · rename_i top rest same
    cases found
    simp [same]
  · have leaves := r.read_leaves
    rw [found] at leaves
    exact .inr (leaves.shorter token rfl)

/-- The `>` of an element was given back, or it is the symbol before what is left. -/
theorem next_closing {r after : Reader} (found : r.next = (.ok (some .closeMarkup), after)) :
    (after.pushed.length < r.pushed.length ∧ after.input = r.input) ∨
      .char '>' :: after.input <:+ r.input := by
  unfold next at found
  split at found
  · rename_i top rest same
    cases found
    simp [same]
  · have leaves := r.read_leaves
    rw [found] at leaves
    exact .inr (leaves.closing rfl)

end Reader

end ConfigTemplate.Markup
