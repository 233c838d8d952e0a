import ConfigTemplate.Proofs.Markup.Rounds

/-!
# Why templates are refused

Assembling a tree refuses events over what the template says, and never with one of the two faults
in which reader and parser disagree about their place. Since parsing leaves these to the handler, no
template is refused over them.

Results:
1. `placed_receive`: the errors that assembling a tree reports.
2. `Tree.parse_placed`: those that a template is refused with.
-/

namespace ConfigTemplate.Document

open Attempt
open Markup (Attributes Event HandlerM ParseError)

namespace Assembly

variable {α : Type} {keyword : Keyword} {attributes : Attributes} {line : Nat}
  {cause : ParseError} {current : OpenDeclaration} {name : String}

/-- No error of the computation is a token that is misplaced. -/
abbrev Placed (computation : HandlerM Assembly α) : Prop :=
  FailsOnly (·.isMisplaced = false) computation

/-! ## Declarations -/

theorem yesOrNo_placed {names : List String} {default : Bool}
    (fails : yesOrNo attributes names default line = .error cause) : cause.isMisplaced = false := by
  unfold yesOrNo at fails
  split at fails
  · cases fails
  · split at fails
    · cases fails
    · split at fails <;> cases fails
      rfl

theorem start_placed (fails : OpenDeclaration.start keyword attributes line = .error cause) :
    cause.isMisplaced = false := by
  unfold OpenDeclaration.start at fails
  dsimp only at fails
  split at fails
  · cases fails
    rfl
  · have flagged (names : List String) (default : Bool) {rest : Bool → OpenDeclaration}
        (found : (yesOrNo attributes names default line >>= fun flag => pure (rest flag)) =
          .error cause) : cause.isMisplaced = false := by
      rcases flag : yesOrNo attributes names default line with why | flag
      · rw [flag] at found
        cases found
        exact yesOrNo_placed flag
      · rw [flag] at found
        cases found
    cases keyword with
    | config => exact flagged _ _ fails
    | property => exact flagged _ _ fails
    | project | define | require => cases fails

theorem addText_placed {text : String} (fails : current.addText text line = .error cause) :
    cause.isMisplaced = false := by
  unfold OpenDeclaration.addText at fails
  repeat' split at fails
  all_goals cases fails
  rfl

theorem openInside_placed (fails : current.openInside name attributes line = .error cause) :
    cause.isMisplaced = false := by
  unfold OpenDeclaration.openInside at fails
  split at fails
  · cases fails
    rfl
  split at fails
  · cases fails
  split at fails
  · rcases started : OpenDeclaration.start .property attributes line with why | inner
    · rw [started] at fails
      cases fails
      exact start_placed started
    · rw [started] at fails
      cases fails
  · cases fails
    rfl

theorem closeInside_placed (fails : current.closeInside name line = .error cause) :
    cause.isMisplaced = false := by
  unfold OpenDeclaration.closeInside at fails
  repeat' split at fails
  all_goals cases fails
  rfl

/-! ## Events -/

theorem placed_onText (text : String) (line : Nat) : Placed (onText text line) :=
  failsOnly_get.bind fun assembly => by
    split
    · exact FailsOnly.bind (failsOnly_ofExcept fun _ => addText_placed) fun _ => failsOnly_set _
    · exact failsOnly_set _

theorem placed_openInclude (attributes : Attributes) (line : Nat) :
    Placed (openInclude attributes line) :=
  failsOnly_get.bind fun assembly => by
    cases assembly.pendingInclude with
    | some path => exact failsOnly_throw rfl
    | none =>
      cases attributes.get? "path" with
      | some path => exact failsOnly_set _
      | none => exact failsOnly_throw rfl

theorem placed_onOpen (name : String) (attributes : Attributes) (line : Nat) :
    Placed (onOpen name attributes line) :=
  failsOnly_get.bind fun assembly => by
    split
    · exact FailsOnly.bind (failsOnly_ofExcept fun _ => openInside_placed) fun _ => failsOnly_set _
    · split
      · exact FailsOnly.bind (failsOnly_ofExcept fun _ => start_placed) fun _ => failsOnly_set _
      · split
        · exact placed_openInclude attributes line
        · exact failsOnly_set _

theorem placed_closeBlock (name : String) (line : Nat) : Placed (closeBlock name line) :=
  failsOnly_get.bind fun assembly => by
    split
    · split
      · exact failsOnly_set _
      · exact failsOnly_throw rfl
    · exact failsOnly_throw rfl

theorem placed_onClose (name : String) (line : Nat) : Placed (onClose name line) :=
  failsOnly_get.bind fun assembly => by
    split
    · refine FailsOnly.bind (failsOnly_ofExcept fun _ => closeInside_placed) fun closed => ?_
      split
      · exact (failsOnly_set _).bind fun _ => failsOnly_pure _
      · exact (failsOnly_set _).bind fun _ => failsOnly_pure _
    · split
      · split
        · exact (failsOnly_set _).bind fun _ => failsOnly_pure _
        · exact (placed_closeBlock name line).bind fun _ => failsOnly_pure _
      · exact (placed_closeBlock name line).bind fun _ => failsOnly_pure _

/-- Assembling a tree refuses events for other reasons. -/
theorem placed_receive (event : Event) : Placed (handler.receive event) := by
  cases event with
  | text content line => exact (placed_onText content line).bind fun _ => failsOnly_pure _
  | opened name attributes line selfClosing =>
    refine (placed_onOpen name attributes line).bind fun _ => ?_
    split
    · exact placed_onClose name line
    · exact failsOnly_pure _
  | closed name line => exact placed_onClose name line

end Assembly

/-- The tree of a template is never refused over a token that is misplaced. -/
theorem Tree.parse_placed {store : Store} {text directory : String} {cause : ParseError}
    (fails : Tree.parse store text directory = .error cause) : cause.isMisplaced = false := by
  unfold Tree.parse at fails
  rcases parses : (Markup.Reader.ofText text directory).parse store Assembly.handler .empty with
    ⟨found | ⟨⟩, reader, assembly⟩
  · rw [parses] at fails
    cases fails
    cases misplaced : cause.isMisplaced with
    | false => rfl
    | true =>
      obtain ⟨moment, current, event, after, later, -, -, answers⟩ :=
        Markup.Reader.reports_of_misplaced (Markup.Reader.ready_ofText text directory) misplaced
          (congrArg Prod.fst parses)
      have placed := Assembly.placed_receive event current cause later answers
      cases misplaced.symm.trans placed
  · rw [parses] at fails
    dsimp only at fails
    unfold Assembly.finish at fails
    split at fails
    · cases fails
      rfl
    · cases fails
      rfl
    · cases fails
      rfl
    · cases fails

end ConfigTemplate.Document
