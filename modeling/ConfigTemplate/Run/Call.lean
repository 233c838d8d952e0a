import ConfigTemplate.Run.Configure

/-!
# Driving a run by calls

A run can also be driven on call by call: step by step, by committing its output, or by completing
whatever is left. Calls come in any order; one that comes at the wrong stage fails.
-/

namespace ConfigTemplate.Run

inductive Call where
  | step (step : Step)
  | commit
  | complete
deriving DecidableEq, Repr

/-- What a call that succeeds has to tell. -/
inductive Reply where
  | done
  | committed (outcome : Outcome)
  | completed (report : Report)
deriving DecidableEq, Repr

def answer : Call → FileStepM Reply
  | .step step => do
    make step
    return .done
  | .commit => return .committed (← commit)
  | .complete => return .completed (← complete)

end ConfigTemplate.Run
