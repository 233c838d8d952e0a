import ConfigTemplate.Markup.Handler
import ConfigTemplate.Markup.Potential

/-!
# Parsing

Parsing passes the events of a template to a handler, one after the other, and reads the files that
the handler asks for. It ends because every round makes the potential of the reader smaller, whatever
the handler answers.
-/

namespace ConfigTemplate.Markup

/-- Passes all events to a handler, up to the end of the input or the first error. The reader and the
state of the handler are those that were reached. -/
def Reader.parse {σ : Type} (store : Store) (handler : Handler σ) (r : Reader) (state : σ) :
    Except ParseError Unit × Reader × σ :=
  match _found : nextEvent r with
  | (.error cause, after) => (.error cause, after, state)
  | (.ok none, after) => (.ok (), after, state)
  | (.ok (some event), after) =>
    match _answer : handler.receive event state with
    | (.error cause, state) => (.error cause, after, state)
    | (.ok none, state) => Reader.parse store handler after state
    | (.ok (some path), state) =>
      match _reads : includeFile store after path with
      | .error cause => (.error cause, after, state)
      | .ok included => Reader.parse store handler included state
termination_by r.potential store
decreasing_by
  · exact potential_lt_of_event _found
  · exact potential_lt_of_include _found (Handler.isClosing_of_receive _answer) _reads

end ConfigTemplate.Markup
