import ConfigTemplate.Markup.Event

/-!
# Tags

How elements are written. A tag is an opening element with its attributes or a closing one, and its
characters are those of its tokens with blanks between them. The relations here say so without a
reader; then a reader is shown to find in the characters just what they say.

Results:
1. `Reader.token_ahead`: a reader finds the tokens that are written ahead of it.
2. `Reader.element_ahead`: it reads the tag that they make up.
3. `Reader.tag_of_element`: when it reads an element, the tokens make up a tag.
-/

namespace ConfigTemplate.Markup

/-! ## How tokens are written -/

/-- Spaces, tabs and line breaks. -/
def isBlank (c : Char) : Bool := Text.isSpaceOrTab c || Text.isLineBreak c

/-- What a value looks like between its quotes. Every character may stand behind a backslash, and
quotes and backslashes must. -/
inductive Escaped : List Char → List Char → Prop where
  | nil : Escaped [] []
  | plain {c : Char} {raw value : List Char} (quote : c ≠ '"') (backslash : c ≠ '\\')
      (further : Escaped raw value) : Escaped (c :: raw) (c :: value)
  | escaped {c : Char} {raw value : List Char} (further : Escaped raw value) :
      Escaped ('\\' :: c :: raw) (c :: value)

/-- The characters of a token inside of an element, other than the `>` at its end. -/
inductive Spells : List Char → Token → Prop where
  | equals : Spells ['='] .equals
  | slash : Spells ['/'] .slash
  | quoted {raw value : List Char} (escaped : Escaped raw value) :
      Spells ('"' :: (raw ++ ['"'])) (.quoted (String.ofList value))
  | identifier {c : Char} {cs : List Char} (start : Text.isWordStart c)
      (parts : ∀ d ∈ cs, Text.isWordPart d) :
      Spells (c :: cs) (.identifier (String.ofList (c :: cs)))

/-- The characters of the tokens of an element behind its `<`, up to the `>`, with blanks before each.
A name ends where a character follows that cannot belong to it. -/
inductive Lexed : List Char → List Token → Prop where
  | close {blanks : List Char} (blank : ∀ c ∈ blanks, isBlank c) :
      Lexed (blanks ++ ['>']) [.closeMarkup]
  | token {blanks text rest : List Char} {token : Token} {tokens : List Token}
      (blank : ∀ c ∈ blanks, isBlank c) (spells : Spells text token)
      (ends : ∀ name, token = .identifier name → ∀ c ∈ rest.head?, ¬ Text.isWordPart c)
      (further : Lexed rest tokens) : Lexed (blanks ++ (text ++ rest)) (token :: tokens)

/-! ## Tags -/

inductive Tag where
  | opening (name : String) (attributes : List (String × String)) (selfClosing : Bool)
  | closing (name : String)
deriving DecidableEq, Repr

namespace Tag

/-- The tokens of attributes. -/
def attributeTokens (attributes : List (String × String)) : List Token :=
  attributes.flatMap fun (name, value) => [.identifier name, .equals, .quoted value]

/-- The tokens of a tag behind its `<`. -/
def tokens : Tag → List Token
  | .opening name attributes selfClosing =>
    .identifier name ::
      (attributeTokens attributes ++ if selfClosing then [.slash, .closeMarkup] else [.closeMarkup])
  | .closing name => [.slash, .identifier name, .closeMarkup]

/-- The event that a tag makes. -/
def event (line : Nat) : Tag → Event
  | .opening name attributes selfClosing => .opened name (.ofList attributes) line selfClosing
  | .closing name => .closed name line

/-- The tag is written so. -/
def Written (tag : Tag) (text : List Char) : Prop :=
  ∃ body, text = '<' :: body ∧ Lexed body tag.tokens

end Tag

/-! ## The shape of what is written -/

theorem Spells.not_blank {text : List Char} {token : Token} (spells : Spells text token) :
    ∃ c cs, text = c :: cs ∧ ¬ isBlank c ∧ c ≠ '>' ∧ c ≠ '!' := by
  cases spells with
  | equals => exact ⟨'=', [], rfl, by decide⟩
  | slash => exact ⟨'/', [], rfl, by decide⟩
  | quoted escaped => exact ⟨'"', _, rfl, by decide⟩
  | @identifier c cs start parts =>
    refine ⟨c, cs, rfl, ?_⟩
    refine ⟨fun blank => ?_, ?_, ?_⟩
    · simp only [isBlank, Text.isSpaceOrTab, Text.isLineBreak, Bool.or_eq_true, beq_iff_eq] at blank
      rcases blank with (rfl | rfl) | rfl | rfl <;> exact absurd start (by decide)
    · rintro rfl
      exact absurd start (by decide)
    · rintro rfl
      exact absurd start (by decide)

theorem Spells.ne_closeMarkup {text : List Char} {token : Token} (spells : Spells text token) :
    token ≠ .closeMarkup := by
  cases spells <;> nofun

/-- The `>` is the last token, and only the last. -/
theorem Lexed.cons_iff {body : List Char} {token : Token} {tokens : List Token}
    (lexed : Lexed body (token :: tokens)) : token = .closeMarkup ↔ tokens = [] := by
  cases lexed with
  | close => simp
  | token blank spells ends further =>
    have differs := spells.ne_closeMarkup
    cases further <;> simp [differs]

theorem Lexed.exists_cons {body : List Char} {tokens : List Token} (lexed : Lexed body tokens) :
    ∃ c cs, body = c :: cs ∧ c ≠ '!' := by
  cases lexed with
  | @close blanks blank =>
    cases blanks with
    | nil => exact ⟨'>', [], rfl, by decide⟩
    | cons c cs =>
      refine ⟨c, _, rfl, ?_⟩
      rintro rfl
      exact absurd (blank '!' List.mem_cons_self) (by decide)
  | @token blanks text rest token tokens blank spells ends further =>
    cases blanks with
    | nil =>
      obtain ⟨c, cs, rfl, -, -, differs⟩ := spells.not_blank
      exact ⟨c, _, rfl, differs⟩
    | cons c cs =>
      refine ⟨c, _, rfl, ?_⟩
      rintro rfl
      exact absurd (blank '!' List.mem_cons_self) (by decide)

/-- What is behind the `<` of an element does not make a comment of it. -/
theorem Lexed.commentBody? {body : List Char} {tokens : List Token} (lexed : Lexed body tokens)
    (rest : List Symbol) :
    Symbol.commentBody? (.char '<' :: (body.map .char ++ rest)) = none := by
  obtain ⟨c, cs, rfl, differs⟩ := lexed.exists_cons
  simp [Symbol.commentBody?, Symbol.startWith, Ne.symm differs]

/-! ## Scanning what is written -/

namespace Symbol

theorem blanks_append {cs : List Char} (blank : ∀ c ∈ cs, isBlank c) {c : Char}
    (stops : ¬ isBlank c) (line : Nat) (rest : List Symbol) :
    ∃ later, blanks line (cs.map .char ++ .char c :: rest) = (later, .char c :: rest) := by
  induction cs generalizing line with
  | nil =>
    rw [isBlank] at stops
    exact ⟨line, by simp only [List.map_nil, List.nil_append, blanks, if_neg stops]⟩
  | cons d cs ih =>
    obtain ⟨later, same⟩ := ih (fun e inside => blank e (List.mem_cons_of_mem _ inside))
      (lineAfter line d (cs.map .char ++ .char c :: rest))
    refine ⟨later, ?_⟩
    have first := blank d List.mem_cons_self
    rw [isBlank] at first
    rw [List.map_cons, List.cons_append, blanks, if_pos first, same]

theorem quoted_append {raw value : List Char} (escaped : Escaped raw value) (line : Nat)
    (rest : List Symbol) :
    ∃ later, quoted false line (raw.map .char ++ .char '"' :: rest) =
      ⟨value, later, .char '"' :: rest⟩ := by
  induction escaped generalizing line with
  | nil => exact ⟨line, rfl⟩
  | @plain c raw value quote backslash further ih =>
    obtain ⟨later, same⟩ := ih (lineAfter line c (raw.map .char ++ .char '"' :: rest))
    refine ⟨later, ?_⟩
    simp [quoted, quote, backslash, same, Scan.cons]
  | @escaped c raw value further ih =>
    obtain ⟨later, same⟩ := ih (lineAfter line c (raw.map .char ++ .char '"' :: rest))
    refine ⟨later, ?_⟩
    simp [quoted, same, Scan.cons]

theorem word_append {cs : List Char} (parts : ∀ d ∈ cs, Text.isWordPart d) {c : Char}
    (stops : ¬ Text.isWordPart c) (line : Nat) (rest : List Symbol) :
    word line (cs.map .char ++ .char c :: rest) = ⟨cs, line, .char c :: rest⟩ := by
  induction cs with
  | nil => simp [word, stops]
  | cons d cs ih =>
    rw [List.map_cons, List.cons_append, word, if_pos (parts d List.mem_cons_self),
      ih fun e inside => parts e (List.mem_cons_of_mem _ inside)]
    rfl

/-- The characters before the next `<`, and the symbols from there on. -/
def upToElement : List Symbol → List Char × List Symbol
  | [] => ([], [])
  | .endOf _ :: rest => upToElement rest
  | .char c :: rest =>
    if c = '<' then ([], .char c :: rest)
    else ((c :: (upToElement rest).1), (upToElement rest).2)

theorem literal_eq (line : Nat) (symbols : List Symbol) :
    ∃ later, literal line symbols =
      ⟨(upToElement symbols).1, later, (upToElement symbols).2⟩ := by
  fun_induction literal line symbols with
  | case1 line => exact ⟨line, rfl⟩
  | case2 line file rest ih => exact ih
  | case3 line rest => exact ⟨line, rfl⟩
  | case4 line c rest differs ih =>
    obtain ⟨later, same⟩ := ih
    exact ⟨later, by simp [same, upToElement, differs, Scan.cons]⟩

theorem eq_of_upToElement {symbols rest : List Symbol} {first : Symbol}
    (left : (upToElement symbols).2 = first :: rest) : first = .char '<' := by
  fun_induction upToElement symbols with
  | case1 => cases left
  | case2 file symbols ih => exact ih left
  | case3 symbols =>
    cases left
    rfl
  | case4 c symbols differs ih => exact ih left

theorem upToElement_plain {text : List Char} (plain : '<' ∉ text) (symbols : List Symbol) :
    upToElement (text.map .char ++ symbols) =
      (text ++ (upToElement symbols).1, (upToElement symbols).2) := by
  induction text with
  | nil => rfl
  | cons c text ih =>
    rw [List.mem_cons, not_or] at plain
    rw [List.map_cons, List.cons_append, upToElement, if_neg (Ne.symm plain.1), ih plain.2]
    rfl

theorem upToElement_append {text rest : List Char} (plain : '<' ∉ text)
    (ends : ∀ c ∈ rest.head?, c = '<') :
    upToElement ((text ++ rest).map .char) = (text, rest.map .char) := by
  rw [List.map_append, upToElement_plain plain]
  cases rest with
  | nil => simp [upToElement]
  | cons c rest =>
    obtain rfl := ends c rfl
    simp [upToElement]

end Symbol

/-! ## Reading what is written -/

namespace Reader

/-- A reader between elements. -/
def outside (root : String) (line : Nat) (input : List Symbol) : Reader :=
  ⟨input, root, line, .outside, []⟩

/-- A reader behind the `<` of an element. -/
def inside (root : String) (line : Nat) (input : List Symbol) : Reader :=
  ⟨input, root, line, .insideElement, []⟩

/-- The reader has these tokens ahead up to the end of an element, and then the rest. -/
def Ahead (root : String) (rest : List Symbol) (tokens : List Token) (r : Reader) : Prop :=
  match tokens with
  | [] => ∃ line, r = outside root line rest
  | _ :: _ => ∃ line body, Lexed body tokens ∧ r = inside root line (body.map .char ++ rest)

variable {root : String} {rest : List Symbol}

/-- The token ahead is the one that is found. -/
theorem token_ahead {first : Token} {tokens : List Token} {r : Reader}
    (ahead : r.Ahead root rest (first :: tokens)) :
    ∃ after, token r = (.ok (some first), after) ∧ after.Ahead root rest tokens := by
  obtain ⟨line, body, lexed, rfl⟩ := ahead
  show ∃ after, (inside root line (body.map .char ++ rest)).readInside = _ ∧ _
  cases lexed with
  | @close blanks blank =>
    obtain ⟨later, skips⟩ :=
      Symbol.blanks_append blank (c := '>') (by decide) line rest
    refine ⟨outside root later rest, ?_, later, rfl⟩
    simp [readInside, inside, outside, skips]
  | @token blanks text behind _ _ blank spells ends further =>
    have continues : ∀ later, Ahead root rest tokens
        (inside root later (behind.map .char ++ rest)) := by
      intro later
      cases tokens with
      | nil => cases further
      | cons => exact ⟨later, behind, further, rfl⟩
    obtain ⟨c, cs, same, visible, -, -⟩ := spells.not_blank
    obtain ⟨later, skips⟩ :=
      Symbol.blanks_append blank visible line ((cs ++ behind).map .char ++ rest)
    have skips : Symbol.blanks line ((blanks ++ (text ++ behind)).map .char ++ rest) =
        (later, .char c :: ((cs ++ behind).map .char ++ rest)) := by
      rw [← skips, same]
      simp
    generalize (blanks ++ (text ++ behind)).map Symbol.char ++ rest = symbols at skips ⊢
    cases spells with
    | equals | slash =>
      cases same
      refine ⟨_, ?_, continues later⟩
      simp [readInside, inside, skips]
    | quoted escaped =>
      cases same
      obtain ⟨final, found⟩ := Symbol.quoted_append escaped later (behind.map .char ++ rest)
      refine ⟨_, ?_, continues final⟩
      simp [readInside, inside, skips, found]
    | identifier start parts =>
      cases same
      obtain ⟨d, ds, rfl, -⟩ := further.exists_cons
      have found := Symbol.word_append parts (ends _ rfl d rfl) later (ds.map .char ++ rest)
      refine ⟨_, ?_, continues later⟩
      have plain : c ≠ '=' ∧ c ≠ '/' ∧ c ≠ '>' ∧ c ≠ '"' := by
        refine ⟨?_, ?_, ?_, ?_⟩ <;>
          · rintro rfl
            exact absurd start (by decide)
      simp [readInside, inside, skips, found, plain, start]

theorem Ahead.exists_cons {first : Token} {tokens : List Token} {r : Reader}
    (ahead : r.Ahead root rest (first :: tokens)) (goesOn : first ≠ .closeMarkup) :
    ∃ second others, tokens = second :: others := by
  obtain ⟨line, body, lexed, -⟩ := ahead
  exact List.exists_cons_of_ne_nil (mt lexed.cons_iff.2 goesOn)

theorem Ahead.eq_nil {tokens : List Token} {r : Reader}
    (ahead : r.Ahead root rest (.closeMarkup :: tokens)) : tokens = [] := by
  obtain ⟨line, body, lexed, -⟩ := ahead
  exact lexed.cons_iff.1 rfl

/-- The tokens ahead and the end of the element are determined. -/
theorem Ahead.unique {others : List Token} {tokens : List Token} {final : List Symbol} {r : Reader}
    (ahead : r.Ahead root rest tokens) (also : r.Ahead root final others) :
    tokens = others ∧ rest = final := by
  induction tokens generalizing others r with
  | nil =>
    obtain ⟨line, rfl⟩ := ahead
    cases others with
    | nil =>
      obtain ⟨_, same⟩ := also
      exact ⟨rfl, congrArg Reader.input same⟩
    | cons first others =>
      obtain ⟨_, _, -, same⟩ := also
      cases congrArg Reader.mode same
  | cons first tokens ih =>
    cases others with
    | nil =>
      obtain ⟨_, _, -, rfl⟩ := ahead
      obtain ⟨_, same⟩ := also
      cases congrArg Reader.mode same
    | cons second others =>
      obtain ⟨after, found, further⟩ := token_ahead ahead
      obtain ⟨_, found', further'⟩ := token_ahead also
      cases found.symm.trans found'
      obtain ⟨rfl, rfl⟩ := ih further further'
      exact ⟨rfl, rfl⟩

/-- The tokens ahead are read one after the other. -/
theorem Ahead.trail {tokens : List Token} {r : Reader} (ahead : r.Ahead root rest tokens) :
    ∃ line, Trail r tokens (outside root line rest) := by
  induction tokens generalizing r with
  | nil =>
    obtain ⟨line, rfl⟩ := ahead
    exact ⟨line, .stop _⟩
  | cons first tokens ih =>
    obtain ⟨after, found, further⟩ := token_ahead ahead
    obtain ⟨line, trail⟩ := ih further
    exact ⟨line, .token found trail⟩

/-! ### A tag ahead is read -/

theorem attributeValue_ahead (name : String) {value : String} {tokens : List Token} {r : Reader}
    (ahead : r.Ahead root rest (.equals :: .quoted value :: tokens)) :
    ∃ after, attributeValue name r = (.ok value, after) ∧ after.Ahead root rest tokens := by
  obtain ⟨middle, equals, further⟩ := token_ahead ahead
  obtain ⟨after, quoted, others⟩ := token_ahead further
  refine ⟨after, ?_, others⟩
  simp only [attributeValue, Attempt.run_bind, equals, quoted]
  rfl

theorem attributesFrom_ahead (attributes : List (String × String)) {stop : Token}
    {tokens : List Token} (stops : ∀ name, stop ≠ .identifier name) (found : Attributes) {r : Reader}
    (ahead : r.Ahead root rest (Tag.attributeTokens attributes ++ stop :: tokens)) :
    let result := attributes.foldl (fun found binding => found.insert binding.1 binding.2) found
    ∃ after : Reader, attributesFrom found r = (.ok result, after.push stop) ∧
      after.Ahead root rest tokens := by
  induction attributes generalizing found r with
  | nil =>
    obtain ⟨after, same, further⟩ := token_ahead ahead
    refine ⟨after, ?_, further⟩
    unfold attributesFrom
    split
    · rename_i failed
      cases same.symm.trans failed
    · rename_i name _ is
      cases same.symm.trans is
      exact absurd rfl (stops name)
    · rename_i other is
      cases same.symm.trans is
      rfl
    · rename_i ended
      cases same.symm.trans ended
  | cons first attributes ih =>
    obtain ⟨name, value⟩ := first
    obtain ⟨middle, same, further⟩ := token_ahead ahead
    obtain ⟨later, valued, others⟩ := attributeValue_ahead name further
    obtain ⟨after, reads, remaining⟩ := ih (found.insert name value) others
    refine ⟨after, ?_, remaining⟩
    unfold attributesFrom
    split
    · rename_i failed
      cases same.symm.trans failed
    · rename_i is
      cases same.symm.trans is
      split
      · rename_i failed
        cases valued.symm.trans failed
      · rename_i is
        cases valued.symm.trans is
        exact reads
    · rename_i noName is
      cases same.symm.trans is
      exact (noName name rfl).elim
    · rename_i ended
      cases same.symm.trans ended

theorem expectClose_ahead (fault : Fault) {r : Reader} (ahead : r.Ahead root rest [.closeMarkup]) :
    ∃ after, expectClose fault r = (.ok (), after) ∧ after.Ahead root rest [] := by
  obtain ⟨after, closes, further⟩ := token_ahead ahead
  refine ⟨after, ?_, further⟩
  simp only [expectClose, Attempt.run_bind, closes]
  rfl

/-- The tag ahead is the one that is read. -/
theorem element_ahead {tag : Tag} {r : Reader} (ahead : r.Ahead root rest tag.tokens) :
    ∃ line after, element r = (.ok (tag.event line), after) ∧ after.Ahead root rest [] := by
  cases tag with
  | closing name =>
    obtain ⟨first, slash, named⟩ := token_ahead ahead
    obtain ⟨second, identifier, closes⟩ := token_ahead named
    obtain ⟨after, closed, further⟩ := expectClose_ahead .invalidCloseElement closes
    refine ⟨after.line, after, ?_, further⟩
    simp only [element, closingElement, Attempt.run_bind, slash, identifier, closed]
    rfl
  | opening name attributes selfClosing =>
    obtain ⟨first, identifier, named⟩ := token_ahead ahead
    refine ⟨first.line, ?_⟩
    cases selfClosing with
    | false =>
      obtain ⟨after, found, further⟩ := attributesFrom_ahead attributes (by simp) .empty named
      refine ⟨after, ?_, further⟩
      simp only [element, openingElement, currentLine, Reader.attributes, Attempt.run_bind,
        identifier, found, token_push]
      rfl
    | true =>
      obtain ⟨middle, found, slashed⟩ := attributesFrom_ahead attributes (by simp) .empty named
      obtain ⟨after, closed, further⟩ := expectClose_ahead .invalidElement slashed
      refine ⟨after, ?_, further⟩
      simp only [element, openingElement, currentLine, Reader.attributes, Attempt.run_bind,
        identifier, found, token_push, closed]
      rfl

/-! ### What is read is a tag -/

theorem tokens_of_attributeValue {name value : String} {first : Token} {tokens : List Token}
    {r after : Reader} (reads : attributeValue name r = (.ok value, after))
    (ahead : r.Ahead root rest (first :: tokens)) :
    ∃ others, first :: tokens = .equals :: .quoted value :: others ∧
      after.Ahead root rest others := by
  obtain ⟨middle, found, further⟩ := token_ahead ahead
  simp only [attributeValue, Attempt.run_bind, found] at reads
  cases first with
  | equals =>
    obtain ⟨second, others, rfl⟩ := ahead.exists_cons (by simp)
    obtain ⟨last, found, further⟩ := token_ahead further
    simp only [Attempt.run_bind, found] at reads
    cases second with
    | quoted =>
      cases reads
      exact ⟨others, rfl, further⟩
    | _ => cases reads
  | _ => cases reads

theorem tokens_of_attributesFrom {found result : Attributes} {first : Token} {tokens : List Token}
    {r after : Reader} (reads : attributesFrom found r = (.ok result, after))
    (ahead : r.Ahead root rest (first :: tokens)) :
    ∃ attributes last others, ∃ before behind : Reader,
      first :: tokens = Tag.attributeTokens attributes ++ last :: others ∧
      after = behind.push last ∧
      before.Ahead root rest (last :: others) ∧ behind.Ahead root rest others := by
  fun_induction attributesFrom found r generalizing first tokens with
  | case1 => cases reads
  | case2 => cases reads
  | case3 found r name middle same value later valued ih =>
    obtain ⟨_, is, further⟩ := token_ahead ahead
    cases same.symm.trans is
    obtain ⟨second, others, rfl⟩ := ahead.exists_cons (by simp)
    obtain ⟨others, split, behind⟩ := tokens_of_attributeValue valued further
    cases split
    -- The value is not the end of the element.
    obtain ⟨_, _, quoted⟩ := token_ahead further
    obtain ⟨third, others, rfl⟩ := quoted.exists_cons (by simp)
    obtain ⟨attributes, last, others, before, behind, split, back, ends, final⟩ := ih reads behind
    exact ⟨(name, value) :: attributes, last, others, before, behind,
      by simp [Tag.attributeTokens, split], back, ends, final⟩
  | case4 found r other middle noName same =>
    cases reads
    obtain ⟨_, is, further⟩ := token_ahead ahead
    cases same.symm.trans is
    exact ⟨[], other, tokens, r, middle, rfl, rfl, ahead, further⟩
  | case5 found r middle same =>
    obtain ⟨_, is, -⟩ := token_ahead ahead
    cases same.symm.trans is

theorem tokens_of_expectClose {fault : Fault} {first : Token} {tokens : List Token}
    {r after : Reader} (reads : expectClose fault r = (.ok (), after))
    (ahead : r.Ahead root rest (first :: tokens)) : first :: tokens = [.closeMarkup] := by
  obtain ⟨middle, found, further⟩ := token_ahead ahead
  simp only [expectClose, Attempt.run_bind, found] at reads
  cases first with
  | closeMarkup => rw [ahead.eq_nil]
  | _ => cases reads

/-- The tokens of an element that can be read are those of a tag. -/
theorem tag_of_element {first : Token} {tokens : List Token} {r after : Reader} {event : Event}
    (reads : element r = (.ok event, after)) (ahead : r.Ahead root rest (first :: tokens)) :
    ∃ tag : Tag, first :: tokens = tag.tokens := by
  obtain ⟨middle, found, further⟩ := token_ahead ahead
  simp only [element, Attempt.run_bind, found] at reads
  cases first with
  | slash =>
    obtain ⟨second, others, rfl⟩ := ahead.exists_cons (by simp)
    obtain ⟨last, found, closes⟩ := token_ahead further
    simp only [closingElement, Attempt.run_bind, found] at reads
    cases second with
    | identifier name =>
      obtain ⟨third, others, rfl⟩ := further.exists_cons (by simp)
      obtain ⟨_, _, closed, -⟩ := Attempt.run_bind_eq_ok_iff.1 reads
      rw [tokens_of_expectClose closed closes]
      exact ⟨.closing name, rfl⟩
    | _ => cases reads
  | identifier name =>
    obtain ⟨second, others, rfl⟩ := ahead.exists_cons (by simp)
    obtain ⟨line, _, lined, reads⟩ := Attempt.run_bind_eq_ok_iff.1 reads
    cases lined
    obtain ⟨result, _, collected, reads⟩ := Attempt.run_bind_eq_ok_iff.1 reads
    obtain ⟨attributes, last, others, before, behind, split, rfl, ends, final⟩ :=
      tokens_of_attributesFrom collected further
    obtain ⟨_, _, again, reads⟩ := Attempt.run_bind_eq_ok_iff.1 reads
    cases again
    rw [split]
    cases last with
    | closeMarkup =>
      rw [ends.eq_nil]
      exact ⟨.opening name attributes false, rfl⟩
    | slash =>
      obtain ⟨third, others, rfl⟩ := ends.exists_cons (by simp)
      obtain ⟨_, _, closed, -⟩ := Attempt.run_bind_eq_ok_iff.1 reads
      rw [tokens_of_expectClose closed final]
      exact ⟨.opening name attributes true, rfl⟩
    | _ => cases reads
  | _ => cases reads

/-! ## Reading between elements -/

/-- The reader is between elements, and the input is left. -/
inductive Between (root : String) : List Symbol → Reader → Prop where
  | outside (line : Nat) (input : List Symbol) : Between root input (outside root line input)
  | atElement (line : Nat) (rest : List Symbol) :
      Between root (.char '<' :: rest) ⟨.char '<' :: rest, root, line, .atElement, []⟩
  | finished (line : Nat) : Between root [] ⟨[], root, line, .finished, []⟩

variable {input left : List Symbol} {r : Reader}

/-- Outside of elements, a reader finds the text before the end. -/
theorem readOutside_end {text : List Char} {later : Nat}
    (scans : Symbol.literal r.line r.input = ⟨text, later, []⟩) :
    r.readOutside =
      (.ok (if text = [] then none else some (.text (String.ofList text))),
        { r with input := [], line := later, mode := .finished }) := by
  unfold readOutside
  rw [scans]
  rfl

/-- Outside of elements, a reader finds the text before the next `<`, or this one. -/
theorem readOutside_element {text : List Char} {later : Nat} {first : Symbol} {rest : List Symbol}
    (scans : Symbol.literal r.line r.input = ⟨text, later, first :: rest⟩)
    (plain : Symbol.commentBody? (first :: rest) = none) :
    r.readOutside =
      if text = [] then (.ok (some .openMarkup), { r with input := rest, mode := .insideElement })
      else
        (.ok (some (.text (String.ofList text))),
          { r with input := first :: rest, line := later, mode := .atElement }) := by
  unfold readOutside
  rw [scans]
  dsimp only
  split
  · rename_i body found
    cases plain.symm.trans found
  · rfl

/-- The text before an element, or before the end, is one token. -/
theorem next_text (between : Between root input r) {text : List Char} (some_ : text ≠ [])
    (splits : Symbol.upToElement input = (text, left)) (plain : Symbol.commentBody? left = none) :
    ∃ after, r.next = (.ok (some (.text (String.ofList text))), after) ∧
      Between root left after := by
  cases between with
  | outside line =>
    obtain ⟨later, scans⟩ := Symbol.literal_eq line input
    rw [splits] at scans
    cases left with
    | nil =>
      have reads := readOutside_end (r := outside root line input) scans
      rw [if_neg some_] at reads
      exact ⟨_, reads, .finished later⟩
    | cons first rest =>
      have reads := readOutside_element (r := outside root line input) scans plain
      rw [if_neg some_] at reads
      obtain rfl := Symbol.eq_of_upToElement (congrArg Prod.snd splits)
      exact ⟨_, reads, .atElement later rest⟩
  | atElement line rest =>
    cases splits
    exact absurd rfl some_
  | finished line =>
    cases splits
    exact absurd rfl some_

theorem nextEvent_text (between : Between root input r) {text : List Char} (some_ : text ≠ [])
    (splits : Symbol.upToElement input = (text, left)) (plain : Symbol.commentBody? left = none) :
    ∃ line after, nextEvent r = (.ok (some (.text (String.ofList text) line)), after) ∧
      Between root left after := by
  obtain ⟨after, reads, further⟩ := next_text between some_ splits plain
  refine ⟨r.line, after, ?_, further⟩
  simp only [nextEvent, currentLine, Attempt.run_bind, token, reads]
  rfl

/-- Behind the last character there is no token. -/
theorem next_end (between : Between root input r) (splits : Symbol.upToElement input = ([], [])) :
    ∃ after, r.next = (.ok none, after) := by
  cases between with
  | outside line =>
    obtain ⟨later, scans⟩ := Symbol.literal_eq line input
    rw [splits] at scans
    exact ⟨_, readOutside_end (r := outside root line input) scans⟩
  | atElement line rest => cases splits
  | finished line => exact ⟨_, rfl⟩

theorem nextEvent_end (between : Between root input r)
    (splits : Symbol.upToElement input = ([], [])) :
    ∃ after, nextEvent r = (.ok none, after) := by
  obtain ⟨after, reads⟩ := next_end between splits
  refine ⟨after, ?_⟩
  simp only [nextEvent, currentLine, Attempt.run_bind, token, reads]
  rfl

/-- A `<` that starts no comment is a token. -/
theorem next_open (between : Between root input r) {rest : List Symbol}
    (splits : Symbol.upToElement input = ([], .char '<' :: rest))
    (plain : Symbol.commentBody? (.char '<' :: rest) = none) :
    ∃ line, r.next = (.ok (some .openMarkup), inside root line rest) := by
  cases between with
  | outside line =>
    obtain ⟨later, scans⟩ := Symbol.literal_eq line input
    rw [splits] at scans
    exact ⟨line, readOutside_element (r := outside root line input) scans plain⟩
  | atElement line symbols =>
    cases splits
    exact ⟨line, rfl⟩
  | finished line => cases splits

theorem next_element (between : Between root input r) {body : List Char} {tokens : List Token}
    {rest : List Symbol} (lexed : Lexed body tokens)
    (splits : Symbol.upToElement input = ([], .char '<' :: (body.map .char ++ rest))) :
    ∃ after, r.next = (.ok (some .openMarkup), after) ∧ after.Ahead root rest tokens := by
  obtain ⟨line, reads⟩ := next_open between splits (lexed.commentBody? rest)
  refine ⟨_, reads, ?_⟩
  cases lexed with
  | close blank => exact ⟨line, _, .close blank, rfl⟩
  | token blank spells ends further => exact ⟨line, _, .token blank spells ends further, rfl⟩

variable {body : List Char} {rest : List Symbol}

/-- The tag before which a reader stands is the one that it reads. -/
theorem nextEvent_tag (between : Between root input r) {tag : Tag} (lexed : Lexed body tag.tokens)
    (splits : Symbol.upToElement input = ([], .char '<' :: (body.map .char ++ rest))) :
    ∃ line later, nextEvent r = (.ok (some (tag.event line)), outside root later rest) := by
  obtain ⟨middle, opens, ahead⟩ := next_element between lexed splits
  obtain ⟨line, after, reads, final, rfl⟩ := element_ahead ahead
  refine ⟨line, final, ?_⟩
  simp only [nextEvent, currentLine, Attempt.run_bind, token, opens, reads]
  rfl

/-- If a reader finds an event before an element, then the element is a tag. -/
theorem tag_of_nextEvent (between : Between root input r) {tokens : List Token}
    (lexed : Lexed body tokens)
    (splits : Symbol.upToElement input = ([], .char '<' :: (body.map .char ++ rest)))
    {found : Option Event} {after : Reader} (reads : nextEvent r = (.ok found, after)) :
    ∃ tag : Tag, tokens = tag.tokens := by
  obtain ⟨middle, opens, ahead⟩ := next_element between lexed splits
  obtain ⟨first, others, rfl⟩ : ∃ first others, tokens = first :: others := by
    cases lexed <;> exact ⟨_, _, rfl⟩
  simp only [nextEvent, currentLine, Attempt.run_bind, token, opens] at reads
  generalize read : element middle = outcome at reads
  obtain ⟨cause | event, later⟩ := outcome
  · cases reads
  · exact tag_of_element read ahead

end Reader

theorem Lexed.ahead {body : List Char} {tokens : List Token} (lexed : Lexed body tokens)
    (rest : List Char) :
    (Reader.inside "" 0 ((body ++ rest).map .char)).Ahead "" (rest.map .char) tokens := by
  rw [List.map_append]
  cases lexed with
  | close blank => exact ⟨0, _, .close blank, rfl⟩
  | token blank spells ends further => exact ⟨0, _, .token blank spells ends further, rfl⟩

/-- A text determines the end of the element with which it starts, and its tokens. -/
theorem Lexed.unique {body other behind after : List Char} {tokens others : List Token}
    (lexed : Lexed body tokens) (also : Lexed other others)
    (same : body ++ behind = other ++ after) : tokens = others ∧ body = other ∧ behind = after := by
  have ahead := also.ahead after
  rw [← same] at ahead
  obtain ⟨rfl, symbols⟩ := (lexed.ahead behind).unique ahead
  obtain rfl := (List.map_inj_right fun _ _ => Symbol.char.inj).1 symbols
  exact ⟨rfl, List.append_cancel_right same, rfl⟩

/-- A text starts with at most one tag. -/
theorem Tag.Written.unique {left right : Tag} {first second : List Char} {behind after : List Char}
    (written : left.Written first) (also : right.Written second)
    (same : first ++ behind = second ++ after) :
    left.event 0 = right.event 0 ∧ first = second ∧ behind = after := by
  obtain ⟨body, rfl, lexed⟩ := written
  obtain ⟨other, rfl, lexed'⟩ := also
  simp only [List.cons_append, List.cons.injEq, true_and] at same
  obtain ⟨tokens, rfl, rfl⟩ := lexed.unique lexed' same
  refine ⟨?_, rfl, rfl⟩
  obtain ⟨line, _, reads, -⟩ := Reader.element_ahead (lexed.ahead behind)
  obtain ⟨line', _, reads', -⟩ := Reader.element_ahead (lexed'.ahead behind)
  obtain ⟨events, -⟩ := Prod.mk.inj (reads.symm.trans reads')
  cases left <;> cases right <;> simp_all [Tag.event]

end ConfigTemplate.Markup
