import ConfigTemplate.Attempt
import ConfigTemplate.Markup.Reader
import ConfigTemplate.NameMap

/-!
# Events

The tokens of a template make up events: a run of text, the opening of an element with its
attributes, or the closing of one. A self-closing element is a single event. Attributes end at a token
that is no name, which is given back and read again.

Main statements: an event is read token by token (`traced_nextEvent`), and one that closes an element
ends with the `>` of that element (`nextEvent_closing`).
-/

namespace ConfigTemplate.Markup

/-- The attributes of an element. Of two with the same name the later one counts. -/
abbrev Attributes := NameMap String

inductive Event where
  | text (content : String) (line : Nat)
  | opened (name : String) (attributes : Attributes) (line : Nat) (selfClosing : Bool)
  | closed (name : String) (line : Nat)
deriving DecidableEq, Repr

/-- Whether an event closes an element. -/
def Event.isClosing : Event → Bool
  | .text _ _ => false
  | .opened _ _ _ selfClosing => selfClosing
  | .closed _ _ => true

/-- Computations that read tokens. -/
abbrev ReadM := Attempt ParseError Reader

namespace Reader

/-- The next token. -/
def token : ReadM (Option Token) := fun r => r.next

theorem token_push (r : Reader) (given : Token) : token (r.push given) = (.ok (some given), r) :=
  r.next_push given

/-- Fails on the line that was reached. -/
def fail {α : Type} (fault : Fault) : ReadM α := fun r => (.error (.malformed r.line fault), r)

/-- The line that was reached. -/
def currentLine : ReadM Nat := fun r => (.ok r.line, r)

/-- Reads the `>` of an element. -/
def expectClose (fault : Fault) : ReadM Unit := do
  match ← token with
  | some .closeMarkup => return
  | _ => fail fault

/-- Reads the equals sign and the value of an attribute behind its name. -/
def attributeValue (name : String) : ReadM String := do
  match ← token with
  | some .equals =>
    match ← token with
    | some (.quoted value) => return value
    | _ => fail (.missingValue name)
  | _ => fail (.missingEquals name)

/-! ## Reading token by token -/

/-- The reader behind tokens that are read one after the other. -/
inductive Trail : Reader → List Token → Reader → Prop where
  | stop (r : Reader) : Trail r [] r
  | token {r middle last : Reader} {first : Token} {others : List Token}
      (found : r.next = (.ok (some first), middle)) (further : Trail middle others last) :
      Trail r (first :: others) last

theorem Trail.append {r middle last : Reader} {front back : List Token}
    (first : Trail r front middle) (second : Trail middle back last) :
    Trail r (front ++ back) last := by
  induction first with
  | stop r => exact second
  | token found _ ih => exact .token found (ih second)

theorem Trail.follows {r last : Reader} {tokens : List Token} (trail : Trail r tokens last) :
    Follows last r := by
  induction trail with
  | stop r => exact .refl r
  | @token r middle last first others found _ ih =>
    have start := r.next_follows
    rw [found] at start
    exact ih.trans start

/-- What is left when reading ends behind `last`: that reader, or what one more attempt to read a
token leaves. -/
def StopsBehind {α : Type} (last : Reader) (outcome : Except ParseError α × Reader) : Prop :=
  outcome.2 = last ∨ last.next = (.ok none, outcome.2) ∨
    ∃ cause, last.next = (.error cause, outcome.2) ∧ outcome.1 = .error cause

/-- The outcome is reached by reading tokens one after the other. -/
def Reaches {α : Type} (r : Reader) (outcome : Except ParseError α × Reader) : Prop :=
  ∃ tokens last, Trail r tokens last ∧ StopsBehind last outcome

theorem Reaches.refl {α : Type} (r : Reader) (result : Except ParseError α) :
    Reaches r (result, r) := ⟨[], r, .stop r, .inl rfl⟩

theorem Reaches.error {α β : Type} {r after : Reader} {cause : ParseError}
    (reaches : Reaches r ((.error cause : Except ParseError α), after)) :
    Reaches r ((.error cause : Except ParseError β), after) := by
  obtain ⟨tokens, last, trail, stops⟩ := reaches
  exact ⟨tokens, last, trail, stops.imp_right fun stops => stops.imp_right
    fun ⟨other, found, same⟩ => ⟨other, found, congrArg _ (Except.error.inj same)⟩⟩

theorem Reaches.trans {α β : Type} {r middle : Reader} {value : α}
    {outcome : Except ParseError β × Reader} (first : Reaches r (.ok value, middle))
    (second : Reaches middle outcome) : Reaches r outcome := by
  obtain ⟨front, before, start, same | ended | ⟨_, _, failed⟩⟩ := first
  · obtain ⟨back, last, further, stops⟩ := second
    obtain rfl : middle = before := same
    exact ⟨front ++ back, last, start.append further, stops⟩
  -- Nothing can be read behind the end of the input.
  · obtain ⟨back, last, further, stops⟩ := second
    have still := next_of_next_eq_none ended
    cases further with
    | token found _ => cases still.symm.trans found
    | stop =>
      refine ⟨front, before, start, .inr ?_⟩
      rcases stops with same | again | ⟨_, found, _⟩
      · exact .inl (same ▸ ended)
      · obtain rfl := congrArg Prod.snd (still.symm.trans again)
        exact .inl ended
      · cases still.symm.trans found
  · cases failed

theorem Reaches.follows {α : Type} {r : Reader} {outcome : Except ParseError α × Reader}
    (reaches : Reaches r outcome) : Follows outcome.2 r := by
  obtain ⟨tokens, last, trail, same | found | ⟨cause, found, -⟩⟩ := reaches
  · exact same ▸ trail.follows
  · have further := last.next_follows
    rw [found] at further
    exact further.trans trail.follows
  · have further := last.next_follows
    rw [found] at further
    exact further.trans trail.follows

/-- A computation that reads token by token. -/
def Traced {α : Type} (computation : ReadM α) : Prop := ∀ r, Reaches r (computation r)

theorem traced_token : Traced token := by
  intro r
  unfold token
  generalize found : r.next = outcome
  obtain ⟨cause | _ | first, after⟩ := outcome
  · exact ⟨[], r, .stop r, .inr (.inr ⟨cause, found, rfl⟩)⟩
  · exact ⟨[], r, .stop r, .inr (.inl found)⟩
  · exact ⟨[first], after, .token found (.stop after), .inl rfl⟩

theorem traced_fail {α : Type} (fault : Fault) : Traced (fail fault : ReadM α) :=
  fun r => .refl r _

theorem traced_pure {α : Type} (value : α) : Traced (pure value : ReadM α) := fun r => .refl r _

theorem traced_currentLine : Traced currentLine := fun r => .refl r _

theorem traced_bind {α β : Type} {first : ReadM α} {second : α → ReadM β} (begins : Traced first)
    (continues : ∀ value, Traced (second value)) : Traced (first >>= second) := by
  intro r
  have start := begins r
  rw [Attempt.run_bind]
  generalize first r = result at start
  obtain ⟨cause | value, after⟩ := result
  · exact start.error
  · exact start.trans (continues value after)

theorem traced_expectClose (fault : Fault) : Traced (expectClose fault) :=
  traced_bind traced_token fun found => by
    split
    · exact traced_pure ()
    · exact traced_fail fault

theorem traced_attributeValue (name : String) : Traced (attributeValue name) :=
  traced_bind traced_token fun found => by
    split
    · refine traced_bind traced_token fun found => ?_
      split
      · exact traced_pure _
      · exact traced_fail _
    · exact traced_fail _

/-- The number of tokens and symbols that are left. -/
def size (r : Reader) : Nat := r.pushed.length + r.input.length

theorem Follows.size_le {later r : Reader} (follows : Follows later r) : later.size ≤ r.size :=
  Nat.add_le_add follows.pushed.length_le follows.input.length_le

theorem size_lt_of_token {r after : Reader} {found : Token}
    (same : r.next = (.ok (some found), after)) : after.size < r.size := by
  have follows := r.next_follows
  rw [same] at follows
  have pushed := follows.pushed.length_le
  dsimp only at pushed
  simp only [size]
  rcases next_progress same with ⟨fewer, equal⟩ | ⟨symbol, shorter⟩
  · rw [equal]
    omega
  · have := shorter.length_le
    simp only [List.length_cons] at this
    omega

/-! ## Reading events -/

/-- Reads attributes, and gives the token behind them back. -/
def attributesFrom (found : Attributes) (r : Reader) : Except ParseError Attributes × Reader :=
  match _token : r.next with
  | (.error cause, after) => (.error cause, after)
  | (.ok (some (.identifier name)), after) =>
    match _value : attributeValue name after with
    | (.error cause, later) => (.error cause, later)
    | (.ok value, later) => attributesFrom (found.insert name value) later
  | (.ok (some other), after) => (.ok found, after.push other)
  | (.ok none, after) => (.ok found, after)
termination_by r.size
decreasing_by
  have follows := (traced_attributeValue name after).follows
  rw [_value] at follows
  exact Nat.lt_of_le_of_lt follows.size_le (size_lt_of_token _token)

/-- Reads the attributes of an element. -/
def attributes : ReadM Attributes := attributesFrom .empty

/-- Reads a closing element behind its `</`. -/
def closingElement : ReadM Event := do
  match ← token with
  | some (.identifier name) =>
    expectClose .invalidCloseElement
    return .closed name (← currentLine)
  | _ => fail .invalidCloseElement

/-- Reads an opening element behind its name. -/
def openingElement (name : String) : ReadM Event := do
  let line ← currentLine
  let found ← attributes
  match ← token with
  | some .closeMarkup => return .opened name found line false
  | some .slash =>
    expectClose .invalidElement
    return .opened name found line true
  | _ => fail (.invalidElementEnd name)

/-- Reads an element behind its `<`. -/
def element : ReadM Event := do
  match ← token with
  | some .slash => closingElement
  | some (.identifier name) => openingElement name
  | _ => fail .invalidElement

/-- Reads the next event; there is none at the end of the input. The line of a text is the one that
was reached before the comments in front of it are skipped. -/
def nextEvent : ReadM (Option Event) := do
  let line ← currentLine
  match ← token with
  | none => return none
  | some (.text content) => return some (.text content line)
  | some .openMarkup => return some (← element)
  | some other => fail (.tokenOutsideElement other)

/-! ## What an event leaves -/

/-- Attributes with the token behind them, which is given back and read again. -/
def attributesAndToken (found : Attributes) : ReadM (Attributes × Option Token) := do
  let found ← attributesFrom found
  return (found, ← token)

theorem openingElement_eq (name : String) : openingElement name = (do
    let line ← currentLine
    match ← attributesAndToken .empty with
    | (found, some .closeMarkup) => return .opened name found line false
    | (found, some .slash) =>
      expectClose .invalidElement
      return .opened name found line true
    | _ => fail (.invalidElementEnd name)) := by
  simp only [openingElement, attributes, attributesAndToken, bind_assoc, pure_bind]
  refine bind_congr fun line => bind_congr fun found => bind_congr fun next => ?_
  rcases next with _ | next
  · rfl
  · cases next <;> rfl

/-- Giving a token back and reading it again leaves no trace. -/
theorem traced_attributesAndToken (found : Attributes) : Traced (attributesAndToken found) := by
  intro r
  have begins := traced_token r
  rw [attributesAndToken, Attempt.run_bind]
  fun_induction attributesFrom found r with
  | case1 found r cause after same =>
    rw [token, same] at begins
    exact begins.error
  | case2 found r name after same cause later value =>
    have further := traced_attributeValue name after
    rw [token, same] at begins
    rw [value] at further
    exact begins.trans further.error
  | case3 found r name after same value later valued ih =>
    have further := traced_attributeValue name after
    rw [token, same] at begins
    rw [valued] at further
    exact begins.trans (further.trans (ih (traced_token later)))
  | case4 found r other after noName same =>
    rw [token, same] at begins
    exact begins.trans (.refl after _)
  | case5 found r after same =>
    -- Nothing is given back at the end, where reading again finds nothing again.
    have again : (do return (found, ← token) : ReadM (Attributes × Option Token)) after =
        (.ok (found, none), after) := by
      rw [Attempt.run_bind, token, next_of_next_eq_none same]
      rfl
    rw [token, same] at begins
    dsimp only
    rw [again]
    exact begins.trans (.refl after _)

theorem traced_closingElement : Traced closingElement :=
  traced_bind traced_token fun found => by
    split
    · exact traced_bind (traced_expectClose _) fun _ =>
        traced_bind traced_currentLine fun _ => traced_pure _
    · exact traced_fail _

theorem traced_openingElement (name : String) : Traced (openingElement name) := by
  rw [openingElement_eq]
  refine traced_bind traced_currentLine fun line =>
    traced_bind (traced_attributesAndToken .empty) fun found => ?_
  split
  · exact traced_pure _
  · exact traced_bind (traced_expectClose _) fun _ => traced_pure _
  · exact traced_fail _

theorem traced_element : Traced element :=
  traced_bind traced_token fun found => by
    split
    · exact traced_closingElement
    · exact traced_openingElement _
    · exact traced_fail _

/-- An event is read token by token. -/
theorem traced_nextEvent : Traced nextEvent :=
  traced_bind traced_currentLine fun line => traced_bind traced_token fun found => by
    split
    · exact traced_pure _
    · exact traced_pure _
    · exact traced_bind traced_element fun _ => traced_pure _
    · exact traced_fail _

/-- The last token that is read for certain results is the `>` of an element. -/
def EndsAtClose {α : Type} (computation : ReadM α) (results : α → Prop) : Prop :=
  ∀ r value after, computation r = (.ok value, after) → results value →
    ∃ tokens before, Trail r tokens before ∧ before.next = (.ok (some .closeMarkup), after)

theorem endsAtClose_fail {α : Type} (fault : Fault) (results : α → Prop) :
    EndsAtClose (fail fault : ReadM α) results := by
  intro r value after same
  cases same

theorem endsAtClose_bind {α β : Type} {first : ReadM α} {second : α → ReadM β} {results : β → Prop}
    (begins : Traced first) (continues : ∀ value, EndsAtClose (second value) results) :
    EndsAtClose (first >>= second) results := by
  intro r value after same result
  obtain ⟨middle, between, starts, further⟩ := Attempt.run_bind_eq_ok_iff.1 same
  obtain ⟨tokens, before, trail, closes⟩ := continues middle between value after further result
  have start := begins r
  rw [starts] at start
  obtain ⟨front, last, reads, stopped | ended | ⟨_, _, failed⟩⟩ := start
  · obtain rfl : between = last := stopped
    exact ⟨front ++ tokens, before, reads.append trail, closes⟩
  · have still := next_of_next_eq_none ended
    cases trail with
    | stop => cases still.symm.trans closes
    | token found _ => cases still.symm.trans found
  · cases failed

theorem endsAtClose_expectClose (fault : Fault) : EndsAtClose (expectClose fault) fun _ => True := by
  intro r value after same _
  refine ⟨[], r, .stop r, ?_⟩
  unfold expectClose at same
  rw [Attempt.run_bind] at same
  unfold token at same
  split at same
  · split at same
    · rename_i found
      cases same
      exact found
    · cases same
  · cases same

theorem endsAtClose_map {α β : Type} {first : ReadM α} {f : α → β} {middle : α → Prop}
    {results : β → Prop} (begins : EndsAtClose first middle)
    (transfers : ∀ value, results (f value) → middle value) :
    EndsAtClose (first >>= fun value => pure (f value)) results := by
  intro r value after same result
  rw [Attempt.run_bind] at same
  split at same
  · rename_i found
    cases same
    exact begins r _ after found (transfers _ result)
  · cases same

theorem endsAtClose_closingElement : EndsAtClose closingElement fun _ => True :=
  endsAtClose_bind traced_token fun found => by
    split
    · intro r value after same _
      rw [Attempt.run_bind] at same
      split at same
      · rename_i between closes
        cases same
        exact endsAtClose_expectClose _ r () _ closes trivial
      · cases same
    · exact endsAtClose_fail _ _

theorem endsAtClose_openingElement (name : String) :
    EndsAtClose (openingElement name) (·.isClosing) := by
  rw [openingElement_eq]
  refine endsAtClose_bind traced_currentLine fun line =>
    endsAtClose_bind (traced_attributesAndToken .empty) fun found => ?_
  split
  · intro r value after same closing
    cases same
    cases closing
  · exact endsAtClose_map (endsAtClose_expectClose _) fun _ _ => trivial
  · exact endsAtClose_fail _ _

theorem endsAtClose_element : EndsAtClose element (·.isClosing) :=
  endsAtClose_bind traced_token fun found => by
    split
    · exact fun r value after same _ => endsAtClose_closingElement r value after same trivial
    · exact endsAtClose_openingElement _
    · exact endsAtClose_fail _ _

/-- An event that closes an element ends with the `>` of that element. -/
theorem nextEvent_closing {r after : Reader} {event : Event}
    (found : nextEvent r = (.ok (some event), after)) (closing : event.isClosing) :
    ∃ tokens before, Trail r tokens before ∧ before.next = (.ok (some .closeMarkup), after) := by
  have all : EndsAtClose nextEvent fun result => ∃ event, result = some event ∧ event.isClosing :=
    endsAtClose_bind traced_currentLine fun line => endsAtClose_bind traced_token fun found => by
      split
      · rintro r value after same ⟨event, rfl, closing⟩
        cases same
      · rintro r value after same ⟨event, rfl, closing⟩
        cases same
        cases closing
      · exact endsAtClose_map endsAtClose_element fun value ⟨_, same, closing⟩ =>
          Option.some.inj same ▸ closing
      · exact endsAtClose_fail _ _
  exact all r (some event) after found ⟨event, rfl, closing⟩

/-- Every event begins with a token. -/
theorem nextEvent_progress {r after : Reader} {event : Event}
    (found : nextEvent r = (.ok (some event), after)) :
    ∃ first between, r.next = (.ok (some first), between) ∧ Follows after between := by
  unfold nextEvent at found
  rw [Attempt.run_bind] at found
  simp only [currentLine] at found
  rw [Attempt.run_bind] at found
  split at found
  · rename_i first between same
    split at found
    · cases found
    · cases found
      exact ⟨_, _, same, .refl _⟩
    · have reaches := traced_bind traced_element (fun event => traced_pure (some event)) between
      rw [found] at reaches
      exact ⟨_, _, same, reaches.follows⟩
    · cases found
  · cases found

end Reader

end ConfigTemplate.Markup
