import ConfigTemplate.Files.Replacement
import ConfigTemplate.Run.Request

/-!
# Committing output
-/

namespace ConfigTemplate

/-- What became of the destination. -/
inductive Outcome where
  /-- It did not exist and was written. -/
  | created
  /-- It existed and was replaced. -/
  | replaced
  /-- It had the right content already. -/
  | unchanged
  /-- It existed and was left alone. -/
  | skipped
deriving DecidableEq, Repr

def Outcome.name : Outcome → String
  | .created => "created"
  | .replaced => "replaced"
  | .unchanged => "unchanged"
  | .skipped => "skipped"

/-- Writes a text to a path as the policy says. -/
def Store.commit (store : Store) (path text : String) (policy : Overwrite) :
    Except FileError Outcome × Store :=
  let known := store.pathExists path
  let write : Except FileError Outcome × Store :=
    match store.replaceFile path (Bytes.ofText text) with
    | (.ok (), after) => (.ok (if known then .replaced else .created), after)
    | (.error cause, after) => (.error cause, after)
  if known then
    match policy with
    | .yes => write
    | .no => (.ok .skipped, store)
    | .update =>
      match store.readBytes path with
      | .error cause => (.error cause, store)
      | .ok content => if content = Bytes.ofText text then (.ok .unchanged, store) else write
  else write

end ConfigTemplate
