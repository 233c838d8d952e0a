import ConfigTemplate.Proofs.Document.Flat

/-!
# The rounds of a parse

Parsing goes round by round: it reads an event, hands it to the handler, and goes on behind the
event or in the file that the handler asks for. Each round finds the reader between elements. There
the next token is a text or the `<` of an element, so two of the faults that a reader can report
never come up: that a token stands outside of elements, and that no element begins where one should.

Results:
1. `next_begins`, `keeps_token`: which tokens can follow between elements and inside of one.
2. `keeps_nextEvent`: an event leads from between elements to between elements.
3. `Rounds.ready`: so does every round, whatever files are put before the input.
4. `parse_never_misplaced`: if parsing ends with one of the two faults, the handler has reported it.
-/

namespace ConfigTemplate.Markup

/-- The error is a token that stands outside of elements, or another character where the `<` of an
element was to be. Reader and parser would then disagree about where in the template they are. -/
def ParseError.isMisplaced : ParseError → Bool
  | .malformed _ (.notAtElement _) | .malformed _ (.tokenOutsideElement _) => true
  | _ => false

namespace Reader

variable {r after : Reader}

/-! ## Tokens -/

/-- The reader is between elements, and no token has been given back. Behind a text that an element
has ended, the `<` of this element is the next character of the innermost source. -/
structure Ready (r : Reader) : Prop where
  pushed : r.pushed = []
  mode : r.mode = .outside ∨ r.mode = .comment ∨ r.mode = .finished ∨
    r.mode = .atElement ∧ r.input.head? = some (.char '<')

/-- The reader is behind the end of an element. -/
structure Outside (r : Reader) : Prop where
  pushed : r.pushed = []
  mode : r.mode = .outside

/-- The reader is between the `<` and the `>` of an element. -/
structure Inside (r : Reader) : Prop where
  pushed : r.pushed = []
  mode : r.mode = .insideElement

theorem Outside.ready (outside : r.Outside) : r.Ready := ⟨outside.pushed, .inl outside.mode⟩

theorem ready_ofText (template directory : String) : (ofText template directory).Ready :=
  ⟨rfl, .inl rfl⟩

/-- What reading a token between elements comes to. -/
inductive Begins : Outcome → Prop
  | ended (after : Reader) : Begins (.ok none, after)
  | text {after : Reader} (content : String) (ready : after.Ready) :
      Begins (.ok (some (.text content)), after)
  | element {after : Reader} (inside : after.Inside) : Begins (.ok (some .openMarkup), after)
  | failed {cause : ParseError} (after : Reader) (placed : cause.isMisplaced = false) :
      Begins (.error cause, after)

theorem readOutside_begins (r : Reader) (kept : r.pushed = []) : Begins r.readOutside := by
  fun_induction readOutside r with
  | case1 r found body _body blank line _after => exact .failed _ rfl
  | case2 r found body _body blank line rest _after ih => exact ih kept
  | case3 r found content body _body some_ => exact .text _ ⟨kept, .inr (.inl rfl)⟩
  | case4 r found content _body atEnd =>
    split
    · exact .ended _
    · exact .text _ ⟨kept, .inr (.inr (.inl rfl))⟩
  | case5 r found _body first rest same blank => exact .element ⟨kept, rfl⟩
  | case6 r found content _body first rest same some_ =>
    -- A text ends where a `<` is next.
    obtain ⟨later, scans⟩ := Symbol.literal_eq r.line r.input
    have left : (Symbol.literal r.line r.input).rest = first :: rest := same
    rw [scans] at left
    obtain rfl := Symbol.eq_of_upToElement left
    exact .text _ ⟨kept, .inr (.inr (.inr ⟨rfl, rfl⟩))⟩

theorem readElementStart_begins (kept : r.pushed = []) (starts : r.input.head? = some (.char '<')) :
    Begins r.readElementStart := by
  obtain ⟨rest, input⟩ := List.head?_eq_some_iff.1 starts
  have next : Symbol.nextCharacter r.input = .char '<' :: rest := by
    simp [input, Symbol.nextCharacter]
  unfold readElementStart
  rw [next]
  exact .element ⟨kept, rfl⟩

theorem next_begins (ready : r.Ready) : Begins r.next := by
  rw [next, ready.pushed]
  dsimp only
  unfold read
  obtain outside | comment | finished | ⟨atElement, starts⟩ := ready.mode
  · rw [outside]
    exact readOutside_begins r ready.pushed
  · rw [comment]
    dsimp only
    split
    · exact .failed _ rfl
    · exact readOutside_begins _ ready.pushed
  · rw [finished]
    exact .ended r
  · rw [atElement]
    exact readElementStart_begins ready.pushed starts

/-- Where the reader is behind a token of an element. -/
def Behind : Option Token → Reader → Prop
  | some .closeMarkup, r => r.Outside
  | _, r => r.Inside

theorem Behind.outside (behind : Behind (some .closeMarkup) r) : r.Outside := behind

/-! ## Computations -/

/-- The outcome is a value and a reader behind it that are related, or an error that is not misplaced.
-/
def Lands {α : Type} (behind : α → Reader → Prop) : Except ParseError α × Reader → Prop
  | (.ok value, after) => behind value after
  | (.error cause, _) => cause.isMisplaced = false

/-- From every reader that meets the condition, the computation has an outcome of that kind. -/
def Keeps {α : Type} (before : Reader → Prop) (computation : ReadM α) (behind : α → Reader → Prop) :
    Prop :=
  ∀ r, before r → Lands behind (computation r)

variable {α β : Type} {before : Reader → Prop} {middle : α → Reader → Prop}
  {behind : β → Reader → Prop}

theorem keeps_pure {value : β} (holds : ∀ r, before r → behind value r) :
    Keeps before (pure value) behind := holds

theorem keeps_fail {fault : Fault}
    (placed : ∀ line, (ParseError.malformed line fault).isMisplaced = false) :
    Keeps before (fail fault : ReadM β) behind := fun r _ => placed r.line

theorem keeps_bind {first : ReadM α} {second : α → ReadM β} (begins : Keeps before first middle)
    (continues : ∀ value, Keeps (middle value) (second value) behind) :
    Keeps before (first >>= second) behind := by
  intro r start
  have reached := begins r start
  rw [Attempt.run_bind]
  generalize first r = outcome at reached
  obtain ⟨cause | value, after⟩ := outcome
  · exact reached
  · exact continues value after reached

theorem keeps_currentLine : Keeps before currentLine fun _ => before := fun _ holds => holds

/-- Inside of an element a token is found, and the reader stays inside unless it is the `>`. -/
theorem keeps_token : Keeps Inside token Behind := by
  intro r inside
  rw [token, next, inside.pushed]
  dsimp only
  unfold read
  rw [inside.mode]
  dsimp only
  unfold readInside
  split
  rename_i line input skips
  dsimp only
  split
  · rename_i c rest
    split
    · exact ⟨inside.pushed, inside.mode⟩
    split
    · exact ⟨inside.pushed, inside.mode⟩
    split
    · exact ⟨inside.pushed, rfl⟩
    split
    · split
      · rfl
      · exact ⟨inside.pushed, inside.mode⟩
    split
    · exact ⟨inside.pushed, inside.mode⟩
    · rfl
  · rfl

theorem keeps_expectClose {fault : Fault}
    (placed : ∀ line, (ParseError.malformed line fault).isMisplaced = false) :
    Keeps Inside (expectClose fault) fun _ => Outside :=
  keeps_bind keeps_token fun found => by
    split
    · exact keeps_pure fun _ behind => behind.outside
    · exact keeps_fail placed

theorem keeps_attributeValue (name : String) :
    Keeps Inside (attributeValue name) fun _ => Inside :=
  keeps_bind keeps_token fun found => by
    split
    · refine keeps_bind keeps_token fun found => ?_
      split
      · exact keeps_pure fun _ behind => behind
      · exact keeps_fail fun _ => rfl
    · exact keeps_fail fun _ => rfl

/-- The token behind attributes is given back. Reading it again leads behind this token. -/
theorem keeps_attributes :
    Keeps Inside attributes fun _ after => Lands Behind (token after) := by
  suffices all : ∀ found,
      Keeps Inside (attributesFrom found) fun _ after => Lands Behind (token after) from all .empty
  intro found r inside
  have reached := keeps_token r inside
  fun_induction attributesFrom found r with
  | case1 found r cause after same => rwa [token, same] at reached
  | case2 found r name after same cause later value =>
    rw [token, same] at reached
    have further := keeps_attributeValue name after reached
    rwa [value] at further
  | case3 found r name after same value later valued ih =>
    rw [token, same] at reached
    have further := keeps_attributeValue name after reached
    rw [valued] at further
    exact ih further (keeps_token later further)
  | case4 found r other after noName same => rwa [token, same] at reached
  | case5 found r after same =>
    rw [token, same] at reached
    show Lands Behind after.next
    rwa [next_of_next_eq_none same]

theorem keeps_closingElement : Keeps Inside closingElement fun _ => Outside :=
  keeps_bind keeps_token fun found => by
    split
    · exact keeps_bind (keeps_expectClose fun _ => rfl) fun _ =>
        keeps_bind keeps_currentLine fun _ => keeps_pure fun _ outside => outside
    · exact keeps_fail fun _ => rfl

theorem keeps_openingElement (name : String) :
    Keeps Inside (openingElement name) fun _ => Outside :=
  keeps_bind keeps_currentLine fun line => keeps_bind keeps_attributes fun found => by
    have again : Keeps (fun after => Lands Behind (token after)) token Behind := fun _ lands => lands
    refine keeps_bind again fun next => ?_
    split
    · exact keeps_pure fun _ behind => behind.outside
    · exact keeps_bind (keeps_expectClose fun _ => rfl) fun _ => keeps_pure fun _ outside => outside
    · exact keeps_fail fun _ => rfl

theorem keeps_element : Keeps Inside element fun _ => Outside :=
  keeps_bind keeps_token fun found => by
    split
    · exact keeps_closingElement
    · exact keeps_openingElement _
    · exact keeps_fail fun _ => rfl

/-- An event leads from between elements to between elements, and one that closes an element ends
behind the `>` of that element. -/
theorem keeps_nextEvent : Keeps Ready nextEvent fun found after =>
    ∀ event, found = some event → after.Ready ∧ (event.isClosing → after.Outside) := by
  refine keeps_bind keeps_currentLine fun line r ready => ?_
  rw [Attempt.run_bind]
  have begins := next_begins ready
  rw [← show token r = r.next from rfl] at begins
  generalize token r = outcome at begins
  cases begins with
  | ended after => exact nofun
  | text content ready =>
    intro event same
    cases same
    exact ⟨ready, nofun⟩
  | @element middle inside =>
    refine keeps_bind keeps_element (fun event => keeps_pure fun after outside => ?_) middle inside
    intro event same
    exact ⟨outside.ready, fun _ => outside⟩
  | failed after placed => exact placed

/-! ## Rounds -/

variable {σ : Type} {store : Store} {handler : Handler σ} {moment included : Reader}
  {state current later : σ} {event : Event} {path : String} {cause : ParseError}

/-- The readers, with what the handler has kept, from which a parse reads an event: the first one, and
behind each event that the handler has accepted the next one. -/
inductive Rounds (store : Store) (handler : Handler σ) : Reader → σ → Reader → σ → Prop
  | now (r : Reader) (state : σ) : Rounds store handler r state r state
  | behind {r after moment : Reader} {state later current : σ} {event : Event}
      (found : nextEvent r = (.ok (some event), after))
      (goes : handler.receive event state = (.ok none, later))
      (further : Rounds store handler after later moment current) :
      Rounds store handler r state moment current
  | inside {r after included moment : Reader} {state later current : σ} {event : Event}
      {path : String} (found : nextEvent r = (.ok (some event), after))
      (asks : handler.receive event state = (.ok (some path), later))
      (reads : includeFile store after path = .ok included)
      (further : Rounds store handler included later moment current) :
      Rounds store handler r state moment current

theorem ready_of_event (ready : r.Ready) (found : nextEvent r = (.ok (some event), after)) :
    after.Ready ∧ (event.isClosing → after.Outside) := by
  have lands := keeps_nextEvent r ready
  rw [found] at lands
  exact lands event rfl

/-- A file is put before the input behind the `>` of an element, where reading can begin anew. -/
theorem ready_of_include (ready : r.Ready) (found : nextEvent r = (.ok (some event), after))
    (asks : handler.receive event state = (.ok (some path), later))
    (reads : includeFile store after path = .ok included) : included.Ready := by
  have outside := (ready_of_event ready found).2 (Handler.isClosing_of_receive asks)
  obtain ⟨location, text, -, -, rfl⟩ := includeFile_eq_ok.1 reads
  exact Outside.ready ⟨outside.pushed, outside.mode⟩

/-- Every round finds the reader between elements. -/
theorem Rounds.ready (rounds : Rounds store handler r state moment current) (ready : r.Ready) :
    moment.Ready := by
  induction rounds with
  | now => exact ready
  | behind found goes _ ih => exact ih (ready_of_event ready found).1
  | inside found asks reads _ ih => exact ih (ready_of_include ready found asks reads)

/-- What a parse comes to is what is left to parse in any of its rounds. -/
theorem Rounds.parse_eq (rounds : Rounds store handler r state moment current) :
    r.parse store handler state = moment.parse store handler current := by
  induction rounds with
  | now => rfl
  | behind found goes _ ih => rw [parse_of_event found goes, ih]
  | inside found asks reads _ ih =>
    rw [parse_event found, asks, ← ih]
    dsimp only
    rw [reads]

theorem includeFile_placed (fails : includeFile store r path = .error cause) :
    cause.isMisplaced = false := by
  unfold includeFile at fails
  dsimp only at fails
  split at fails
  · cases fails
    rfl
  · split at fails
    · cases fails
      rfl
    · cases fails

/-- The error is what the handler answers to an event in some round. -/
def Reports (store : Store) (handler : Handler σ) (r : Reader) (state : σ) (cause : ParseError) :
    Prop :=
  ∃ moment current event after later, Rounds store handler r state moment current ∧
    nextEvent moment = (.ok (some event), after) ∧
    handler.receive event current = (.error cause, later)

/-- Reading events and including files fails in other ways. -/
theorem reports_of_misplaced (ready : r.Ready) (misplaced : cause.isMisplaced)
    (fails : (r.parse store handler state).1 = .error cause) :
    Reports store handler r state cause := by
  fun_induction Reader.parse store handler r state with
  | case1 r state other after found =>
    cases fails
    have placed := keeps_nextEvent r ready
    rw [found] at placed
    cases misplaced.symm.trans placed
  | case2 r state after found => cases fails
  | case3 r state event after found other later refuses =>
    cases fails
    exact ⟨r, state, event, after, later, .now r state, found, refuses⟩
  | case4 r state event after found later goes ih =>
    obtain ⟨moment, current, last, rest, final, rounds, reads⟩ :=
      ih (ready_of_event ready found).1 fails
    exact ⟨moment, current, last, rest, final, .behind found goes rounds, reads⟩
  | case5 r state event after found path later asks other unread =>
    cases fails
    cases misplaced.symm.trans (includeFile_placed unread)
  | case6 r state event after found path later asks included reads ih =>
    obtain ⟨moment, current, last, rest, final, rounds, answers⟩ :=
      ih (ready_of_include ready found asks reads) fails
    exact ⟨moment, current, last, rest, final, .inside found asks reads rounds, answers⟩

end Reader

open Reader in
/-- Parsing never comes upon a token outside of elements, nor upon another character where an element
begins, whatever the handler answers: an error of that kind is one that the handler has reported
itself. The reason is that in every round of the parse no token has been given back, and the reader is
outside of elements, in a comment, at the end, or before the `<` of an element. -/
theorem parse_never_misplaced {σ : Type} (store : Store) (handler : Handler σ) (state : σ)
    (template directory : String) :
    let start := Reader.ofText template directory
    (∀ moment current, Rounds store handler start state moment current →
      moment.Ready ∧ start.parse store handler state = moment.parse store handler current) ∧
    ∀ cause, (start.parse store handler state).1 = .error cause → cause.isMisplaced →
      Reports store handler start state cause := by
  intro start
  have ready := ready_ofText template directory
  refine ⟨fun moment current rounds => ⟨rounds.ready ready, rounds.parse_eq⟩, ?_⟩
  intro cause fails misplaced
  exact reports_of_misplaced ready misplaced fails

end ConfigTemplate.Markup
