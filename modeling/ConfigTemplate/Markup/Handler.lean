import ConfigTemplate.Markup.Event

/-!
# Handlers

A handler receives the events of a template and keeps what it makes of them as its state. When an
element closes, it may answer with the path of a file, which is then read before the rest.
-/

namespace ConfigTemplate.Markup

/-- What a handler does with an event: it changes its state, and it may refuse the event. -/
abbrev HandlerM (σ : Type) := Attempt ParseError σ

structure Handler (σ : Type) where
  text : String → Nat → HandlerM σ Unit
  opened : String → Attributes → Nat → HandlerM σ Unit
  /-- The answer is the path of a file to include. -/
  closed : String → Nat → HandlerM σ (Option String)

namespace Handler

variable {σ : Type}

/-- Passes an event to a handler. A self-closing element is opened and closed on the same line. -/
def receive (handler : Handler σ) : Event → HandlerM σ (Option String)
  | .text content line => do
    handler.text content line
    return none
  | .opened name attributes line selfClosing => do
    handler.opened name attributes line
    if selfClosing then handler.closed name line else return none
  | .closed name line => handler.closed name line

/-- Only an event that closes an element makes a handler include a file. -/
theorem isClosing_of_receive {handler : Handler σ} {event : Event} {state after : σ}
    {path : String} (found : handler.receive event state = (.ok (some path), after)) :
    event.isClosing := by
  cases event with
  | text content line =>
    rw [receive, Attempt.run_bind] at found
    split at found <;> cases found
  | opened name attributes line selfClosing =>
    cases selfClosing with
    | true => rfl
    | false =>
      rw [receive, Attempt.run_bind] at found
      split at found <;> cases found
  | closed name line => rfl

end Handler

end ConfigTemplate.Markup
