import ConfigTemplate.Proofs.Files.Store
import ConfigTemplate.Run.Commit
import Mathlib.Data.List.MinMax

/-!
# Committing all or nothing

Replacing a file goes through a temporary file. Its name is new, so it is no part of what paths lead
to, and taking it back leaves no trace.

Results:
1. `replaceFile_cases`: replacing a file either leaves the store as it was, or puts the new content
   at the destination and changes nothing else.
2. `commit_cases`: what each outcome of a commit says about the store before and after.
3. `commit_again` and `commit_update_agrees`: updating a file twice is updating it once, and comes
   to the same files as replacing it.
-/

namespace ConfigTemplate.Store

variable {store after : Store} {path : String} {content : Bytes}

/-! ## The temporary file -/

theorem entry?_temporary (store : Store) (directory : Location) :
    store.entry? (directory ++ [store.temporaryName]) = none := by
  refine (entry?_eq_none_iff (by simp)).2 fun old member same => ?_
  have name : store.temporaryName ∈ store.entries.flatMap Prod.fst :=
    List.mem_flatMap.2 ⟨old, member, same ▸ by simp⟩
  have shorter : store.temporaryName.length ≤ _ :=
    List.le_max_of_le' 0 (List.mem_map_of_mem name) (Nat.le_refl _)
  simp only [temporaryName, String.length_append, String.length_ofList,
    List.length_replicate] at shorter
  have : ".tmp".length = 4 := rfl
  omega

/-- A temporary file is a new entry. -/
theorem stage_eq_ok {directory : String} {temporary : Location} {staged : Store}
    (stages : store.stage directory content = .ok (temporary, staged)) :
    staged = store.put temporary (.file content) ∧ temporary ≠ [] ∧
      store.entry? temporary = none := by
  unfold stage at stages
  cases resolved : store.resolve directory with
  | error cause => simp [resolved, bind, Except.bind] at stages
  | ok location =>
    simp only [resolved, bind, Except.bind] at stages
    split at stages
    · cases stages
    · cases stages
      exact ⟨rfl, by simp, store.entry?_temporary location⟩

/-! ## Destinations -/

/-- The place that a path gives to a file: a name in a directory. -/
structure IsDestination (store : Store) (path : String) (target : Location) : Prop where
  valid : checkPath path = .ok ()
  inDirectory : ∃ before name parent, Path.segments path = before ++ [name] ∧
    store.walk (store.startOf path) before = .ok parent ∧ store.isDirectory parent ∧
    Path.isTrivial name = false ∧ name ≠ ".." ∧ target = parent ++ [name]

theorem segments_eq_of_dropWhile {segments before : List String} {name : String}
    (dropped : segments.reverse.dropWhile (· = "") = name :: before)
    (noSlash : segments.getLast? ≠ some "") : segments = before.reverse ++ [name] ∧ name ≠ "" := by
  rw [← List.head?_reverse] at noSlash
  have backwards : segments.reverse = name :: before := by
    cases same : segments.reverse with
    | nil => simp [same] at dropped
    | cons last others =>
      have proper : last ≠ "" := by simpa [same] using noSlash
      simpa [same, proper] using dropped
  refine ⟨?_, fun empty => ?_⟩
  · rw [← List.reverse_reverse segments, backwards, List.reverse_cons]
  · simp [backwards, empty] at noSlash

theorem destination_eq_ok {target : Location} (found : store.destination path = .ok target) :
    store.IsDestination path target := by
  unfold destination at found
  cases valid : checkPath path with
  | error cause => simp [valid, bind, Except.bind] at found
  | ok =>
    refine ⟨valid, ?_⟩
    simp only [valid, bind, Except.bind] at found
    split at found
    · cases found
    · rename_i name before dropped
      cases walked : store.walk (store.startOf path) before.reverse with
      | error cause => simp [walked] at found
      | ok parent =>
        simp only [walked] at found
        split at found
        · cases found
        rename_i directory
        split at found
        · cases found
        rename_i special
        split at found
        · cases found
        rename_i noSlash
        obtain ⟨split, notEmpty⟩ := segments_eq_of_dropWhile dropped noSlash
        refine ⟨before.reverse, name, parent, split, walked, ?_, ?_, ?_, ?_⟩
        · simpa using directory
        · simp_all [Path.isTrivial]
        · simp_all
        · exact (Except.ok.inj found).symm

namespace IsDestination

variable {target : Location}

theorem ne_nil (destination : store.IsDestination path target) : target ≠ [] := by
  obtain ⟨-, before, name, parent, -, -, -, -, -, rfl⟩ := destination
  simp

/-- The path leads to its destination if there is anything. -/
theorem resolve_eq (destination : store.IsDestination path target) :
    store.resolve path =
      if (store.entry? target).isSome then .ok target else .error .notFound := by
  obtain ⟨valid, before, name, parent, split, walked, directory, proper, notUp, rfl⟩ := destination
  simp only [resolve, valid, bind, Except.bind, split, walk_append, walked]
  rw [walk]
  rcases store.entry? (parent ++ [name]) with _ | entry <;> simp [directory, proper, notUp, walk]

theorem pathExists_eq (destination : store.IsDestination path target) :
    store.pathExists path = (store.entry? target).isSome := by
  rw [pathExists, destination.resolve_eq]
  split
  · rename_i present
    rw [present]
    rfl
  · rename_i absent
    rw [Bool.not_eq_true] at absent
    rw [absent]
    rfl

/-- A new file at the destination does not change what the destination is. -/
theorem put (destination : store.IsDestination path target)
    (notDirectory : store.isDirectory target = false) (content : Bytes) :
    (store.put target (.file content)).IsDestination path target := by
  have proper := destination.ne_nil
  obtain ⟨valid, before, name, parent, split, walked, directory, others⟩ := destination
  have same := isDirectory_put_file proper notDirectory content
  refine ⟨valid, before, name, parent, split, ?_, (same parent).trans directory, others⟩
  rw [startOf, workingDirectory_put]
  exact walk_mono same (fun place => isSome_entry?_put proper) walked

theorem of_put {temporary : Location} (proper : temporary ≠ [])
    (notDirectory : store.isDirectory temporary = false)
    (destination : (store.put temporary (.file content)).IsDestination path target) :
    store.IsDestination path target := by
  obtain ⟨valid, before, name, parent, split, walked, directory, others⟩ := destination
  rw [isDirectory_put_file proper notDirectory] at directory
  rw [startOf, workingDirectory_put] at walked
  exact ⟨valid, before, name, parent, split,
    walk_of_put_file proper notDirectory walked directory, directory, others⟩

theorem readBytes_put (destination : store.IsDestination path target)
    (notDirectory : store.isDirectory target = false) (content : Bytes) :
    (store.put target (.file content)).readBytes path = .ok content := by
  have entry := store.entry?_put (.file content) target destination.ne_nil
  rw [if_pos rfl] at entry
  simp [readBytes, (destination.put notDirectory content).resolve_eq, entry, bytesAt, bind,
    Except.bind]

end IsDestination

/-! ## Replacing a file -/

/-- The second store is the first one with a file at the destination of a path, which was no
directory. -/
def Writes (store : Store) (path : String) (content : Bytes) (after : Store) : Prop :=
  ∃ target, store.IsDestination path target ∧ store.isDirectory target = false ∧
    after = store.put target (.file content)

/-- Moving the temporary file over a path writes the file there and nothing else. -/
theorem writes_of_moveOver {temporary : Location} (proper : temporary ≠ [])
    (absent : store.entry? temporary = none)
    (moves : (store.put temporary (.file content)).moveOver temporary path = .ok after) :
    store.Writes path content after := by
  have notDirectory : store.isDirectory temporary = false := by simp [isDirectory, absent]
  have held : (store.put temporary (.file content)).bytesAt temporary = .ok content := by
    simp [bytesAt, entry?_put store _ _ proper]
  unfold moveOver at moves
  simp only [held, bind, Except.bind] at moves
  split at moves
  · cases moves
  · rename_i target found
    have destination := (destination_eq_ok found).of_put proper notDirectory
    split at moves
    · cases moves
    · rename_i targetNotDirectory
      rw [isDirectory_put_file proper notDirectory, Bool.not_eq_true] at targetNotDirectory
      refine ⟨target, destination, targetNotDirectory, ?_⟩
      split at moves
      · rename_i same
        subst same
        exact (Except.ok.inj moves).symm
      · rw [remove_put _ proper absent] at moves
        exact (Except.ok.inj moves).symm

/-- Replacing a file leaves the store as it was, or writes the file and nothing else. -/
theorem replaceFile_cases {result : Except FileError Unit}
    (run : store.replaceFile path content = (result, after)) :
    (∃ cause, result = .error cause ∧ after = store) ∨
      (result = .ok () ∧ store.Writes path content after) := by
  unfold replaceFile at run
  dsimp only at run
  split at run
  · rename_i cause _
    cases run
    exact .inl ⟨cause, rfl, rfl⟩
  · rename_i temporary staged stages
    obtain ⟨rfl, proper, absent⟩ := stage_eq_ok stages
    have takenBack := remove_put (.file content) proper absent
    split at run
    · rename_i cause _
      cases run
      exact .inl ⟨cause, rfl, takenBack⟩
    · rename_i replaced moves
      cases run
      exact .inr ⟨rfl, writes_of_moveOver proper absent moves⟩

/-- The second store is the first one but for the file at a path, which holds a text. -/
structure Holds (store : Store) (path text : String) (target : Location) (after : Store) :
    Prop where
  leads : after.resolve path = .ok target
  file : after.entry? target = some (.file (Bytes.ofText text))
  others : ∀ other, other ≠ target → after.entry? other = store.entry? other
  workingDirectory : after.workingDirectory = store.workingDirectory

theorem Writes.holds {text : String} (writes : store.Writes path (Bytes.ofText text) after) :
    ∃ target, store.pathExists path = (store.entry? target).isSome ∧
      store.isDirectory target = false ∧ store.Holds path text target after := by
  obtain ⟨target, destination, notDirectory, rfl⟩ := writes
  have entry := fun other => store.entry?_put (.file (Bytes.ofText text)) other destination.ne_nil
  have file := (entry target).trans (if_pos rfl)
  refine ⟨target, destination.pathExists_eq, notDirectory, ?_, file,
    fun other differs => (entry other).trans (if_neg differs), workingDirectory_put⟩
  rw [(destination.put notDirectory _).resolve_eq, file]
  rfl

theorem Writes.creates {text : String} (writes : store.Writes path (Bytes.ofText text) after)
    (absent : store.pathExists path = false) :
    ∃ target, store.entry? target = none ∧ store.Holds path text target after := by
  obtain ⟨target, exists_, -, holds⟩ := writes.holds
  rw [absent] at exists_
  exact ⟨target, Option.isNone_iff_eq_none.1 (Option.isSome_eq_false_iff.1 exists_.symm), holds⟩

theorem Writes.replaces {text : String} (writes : store.Writes path (Bytes.ofText text) after)
    (present : store.pathExists path = true) :
    ∃ target old, store.entry? target = some (.file old) ∧
      store.Holds path text target after := by
  obtain ⟨target, exists_, notDirectory, holds⟩ := writes.holds
  rw [present] at exists_
  obtain ⟨entry, found⟩ := Option.isSome_iff_exists.1 exists_.symm
  cases entry with
  | directory => simp [isDirectory, found] at notDirectory
  | file old => exact ⟨target, old, found, holds⟩

/-! ## Commits -/

/-- What an outcome says about the store before and after a text is committed to a path. -/
def Commits (store : Store) (path text : String) (after : Store) : Outcome → Prop
  | .created => store.pathExists path = false ∧ store.Writes path (Bytes.ofText text) after
  | .replaced => store.pathExists path = true ∧ store.Writes path (Bytes.ofText text) after
  | .unchanged => store.pathExists path = true ∧
      store.readBytes path = .ok (Bytes.ofText text) ∧ after = store
  | .skipped => store.pathExists path = true ∧ after = store

/-- Unless it is skipped, a commit leaves the text at the path. -/
theorem Commits.readBytes {text : String} {outcome : Outcome}
    (commits : store.Commits path text after outcome) (written : outcome ≠ .skipped) :
    after.readBytes path = .ok (Bytes.ofText text) := by
  cases outcome with
  | created =>
    obtain ⟨-, target, destination, notDirectory, rfl⟩ := commits
    exact destination.readBytes_put notDirectory _
  | replaced =>
    obtain ⟨-, target, destination, notDirectory, rfl⟩ := commits
    exact destination.readBytes_put notDirectory _
  | unchanged =>
    obtain ⟨-, held, rfl⟩ := commits
    exact held
  | skipped => exact absurd rfl written

/-- Replaces the file at a path and says whether there was one. -/
def overwrite (store : Store) (path text : String) : Except FileError Outcome × Store :=
  match store.replaceFile path (Bytes.ofText text) with
  | (.ok (), after) => (.ok (if store.pathExists path then .replaced else .created), after)
  | (.error cause, after) => (.error cause, after)

theorem overwrite_cases {text : String} {result : Except FileError Outcome}
    (run : store.overwrite path text = (result, after)) :
    (∃ cause, result = .error cause ∧ after = store) ∨
      ∃ outcome, result = .ok outcome ∧ store.Commits path text after outcome := by
  unfold overwrite at run
  split at run
  · rename_i replaced
    cases run
    obtain ⟨cause, same, -⟩ | ⟨-, wrote⟩ := replaceFile_cases replaced
    · cases same
    · cases known : store.pathExists path with
      | true => exact .inr ⟨.replaced, rfl, known, wrote⟩
      | false => exact .inr ⟨.created, rfl, known, wrote⟩
  · rename_i cause _ replaced
    cases run
    obtain ⟨_, -, same⟩ | ⟨same, -⟩ := replaceFile_cases replaced
    · exact .inl ⟨cause, rfl, same⟩
    · cases same

theorem commit_eq (store : Store) (path text : String) (policy : Overwrite) :
    store.commit path text policy =
      if store.pathExists path then
        match policy with
        | .yes => store.overwrite path text
        | .no => (.ok .skipped, store)
        | .update =>
          match store.readBytes path with
          | .error cause => (.error cause, store)
          | .ok content =>
            if content = Bytes.ofText text then (.ok .unchanged, store)
            else store.overwrite path text
      else store.overwrite path text := by
  unfold commit overwrite
  generalize store.replaceFile path (Bytes.ofText text) = replaced
  obtain ⟨cause | ⟨⟩, after⟩ := replaced <;> cases policy <;> rfl

/-- A commit leaves the store as it was, or it does what its outcome says. -/
theorem commit_cases {text : String} {policy : Overwrite} {result : Except FileError Outcome}
    (run : store.commit path text policy = (result, after)) :
    (∃ cause, result = .error cause ∧ after = store) ∨
      ∃ outcome, result = .ok outcome ∧ store.Commits path text after outcome := by
  rw [commit_eq] at run
  split at run
  · rename_i known
    split at run
    · exact overwrite_cases run
    · cases run
      exact .inr ⟨.skipped, rfl, known, rfl⟩
    · split at run
      · rename_i cause _
        cases run
        exact .inl ⟨cause, rfl, rfl⟩
      · rename_i content held
        split at run
        · rename_i same
          cases run
          exact .inr ⟨.unchanged, rfl, known, same ▸ held, rfl⟩
        · exact overwrite_cases run
  · exact overwrite_cases run

/-! ## Updating -/

theorem pathExists_of_readBytes (held : store.readBytes path = .ok content) :
    store.pathExists path = true := by
  unfold readBytes at held
  unfold pathExists
  cases resolved : store.resolve path with
  | error cause => simp [resolved, bind, Except.bind] at held
  | ok place => rfl

theorem overwrite_eq_ok {text : String} {outcome : Outcome}
    (writes : store.overwrite path text = (.ok outcome, after)) :
    outcome = (if store.pathExists path then .replaced else .created) ∧
      store.Writes path (Bytes.ofText text) after := by
  unfold overwrite at writes
  split at writes
  · rename_i later replaced
    cases writes
    obtain ⟨cause, same, -⟩ | ⟨-, wrote⟩ := replaceFile_cases replaced
    · cases same
    · exact ⟨rfl, wrote⟩
  · cases writes

/-- Updating a file either finds the text in it, or overwrites it. -/
theorem commit_update_eq_ok {text : String} {outcome : Outcome}
    (commits : store.commit path text .update = (.ok outcome, after)) :
    (store.readBytes path = .ok (Bytes.ofText text) ∧ outcome = .unchanged ∧ after = store) ∨
      (store.readBytes path ≠ .ok (Bytes.ofText text) ∧
        store.overwrite path text = (.ok outcome, after)) := by
  rw [commit_eq] at commits
  split at commits
  · dsimp only at commits
    split at commits
    · cases commits
    · rename_i content held
      split at commits
      · rename_i same
        cases commits
        exact .inl ⟨same ▸ held, rfl, rfl⟩
      · rename_i differs
        refine .inr ⟨fun same => differs ?_, commits⟩
        rw [held] at same
        exact Except.ok.inj same
  · rename_i absent
    exact .inr ⟨fun held => absurd (pathExists_of_readBytes held) absent, commits⟩

theorem commit_of_held {text : String} (held : store.readBytes path = .ok (Bytes.ofText text)) :
    store.commit path text .update = (.ok .unchanged, store) := by
  rw [commit_eq, if_pos (pathExists_of_readBytes held)]
  simp [held]

/-- A file that has been updated holds the text. -/
theorem commit_again {text : String} {outcome : Outcome}
    (commits : store.commit path text .update = (.ok outcome, after)) :
    after.commit path text .update = (.ok .unchanged, after) := by
  refine commit_of_held ?_
  rcases commit_update_eq_ok commits with ⟨held, -, rfl⟩ | ⟨-, writes⟩
  · exact held
  · obtain ⟨-, target, destination, notDirectory, rfl⟩ := overwrite_eq_ok writes
    exact destination.readBytes_put notDirectory _

theorem commit_yes_eq (store : Store) (path text : String) :
    store.commit path text .yes = store.overwrite path text := by
  rw [commit_eq, ite_self]

/-- The stores hold the same files and directories. -/
structure Agrees (store other : Store) : Prop where
  entry : ∀ location, store.entry? location = other.entry? location
  workingDirectory : store.workingDirectory = other.workingDirectory

theorem Agrees.refl (store : Store) : store.Agrees store := ⟨fun _ => rfl, rfl⟩

/-- Writing what a file holds already makes no difference. -/
theorem Writes.agrees (writes : store.Writes path content after)
    (held : store.readBytes path = .ok content) : store.Agrees after := by
  obtain ⟨target, destination, -, rfl⟩ := writes
  refine ⟨fun location => ?_, workingDirectory_put.symm⟩
  rw [entry?_put store _ _ destination.ne_nil]
  split
  · rename_i same
    subst same
    rw [readBytes, destination.resolve_eq] at held
    unfold bytesAt at held
    cases found : store.entry? location with
    | none => simp [found, bind, Except.bind] at held
    | some entry =>
      cases entry with
      | directory => simp [found, bind, Except.bind] at held
      | file old => simp_all [bind, Except.bind]
  · rfl

/-- Updating a file comes to the same files as replacing it, and to the same outcome unless the file
holds the text already. -/
theorem commit_update_agrees {text : String} {replacing updating : Outcome} {written left : Store}
    (replaces : store.commit path text .yes = (.ok replacing, written))
    (updates : store.commit path text .update = (.ok updating, left)) :
    left.Agrees written ∧ (updating = .unchanged ↔
        replacing = .replaced ∧ store.readBytes path = .ok (Bytes.ofText text)) ∧
      (updating ≠ .unchanged → updating = replacing) := by
  rw [commit_yes_eq] at replaces
  obtain ⟨outcome, writes⟩ := overwrite_eq_ok replaces
  rcases commit_update_eq_ok updates with ⟨held, rfl, rfl⟩ | ⟨differs, overwrites⟩
  · rw [if_pos (pathExists_of_readBytes held)] at outcome
    exact ⟨writes.agrees held, ⟨fun _ => ⟨outcome, held⟩, fun _ => rfl⟩,
      fun changed => absurd rfl changed⟩
  · obtain ⟨same, rfl⟩ := Prod.mk.inj (replaces.symm.trans overwrites)
    obtain rfl := Except.ok.inj same
    refine ⟨.refl _, ⟨fun unchanged => ?_, fun ⟨_, held⟩ => absurd held differs⟩, fun _ => rfl⟩
    rw [unchanged] at outcome
    split at outcome <;> cases outcome

end ConfigTemplate.Store
