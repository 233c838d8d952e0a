import ConfigTemplate.Files.Store

/-!
# Replacing a file at once

New content is first written to a temporary file in the directory of the destination, and the
temporary file is then moved over the destination. If anything fails, the temporary file is removed,
so the destination holds either its old content or all of the new one.
-/

namespace ConfigTemplate.Store

/-- A file name that is longer than every name in a store, so no entry has it. -/
def temporaryName (store : Store) : String :=
  let names := store.entries.flatMap Prod.fst
  let longest := (names.map String.length).foldr max 0
  ".tmp" ++ String.ofList (List.replicate longest '0')

/-- Writes a temporary file into a directory. -/
def stage (store : Store) (directory : String) (content : Bytes) :
    Except FileError (Location × Store) := do
  let location ← store.resolve directory
  if !store.isDirectory location then throw .notADirectory
  let temporary := location ++ [store.temporaryName]
  return (temporary, store.put temporary (.file content))

/-- The location that a path names as the place of a file, whether or not there is one. -/
def destination (store : Store) (path : String) : Except FileError Location := do
  checkPath path
  let segments := Path.segments path
  -- Slashes at the end do not change which name is the last one.
  match segments.reverse.dropWhile (· = "") with
  | [] => throw .resourceBusy
  | name :: before =>
    let parent ← store.walk (store.startOf path) before.reverse
    if !store.isDirectory parent then throw .notADirectory
    if name = "." || name = ".." then throw .resourceBusy
    -- With a slash behind it the last name can only be that of a directory.
    if segments.getLast? = some "" then throw .notADirectory
    return parent ++ [name]

/-- Moves the file at a location over what is at a path. -/
def moveOver (store : Store) (source : Location) (path : String) : Except FileError Store := do
  let content ← store.bytesAt source
  let target ← store.destination path
  if store.isDirectory target then throw .isADirectory
  if target = source then return store
  return (store.remove source).put target (.file content)

/-- Replaces the file at a path, or creates it. The directory for the temporary file is the parent
that the text of the path shows. -/
def replaceFile (store : Store) (path : String) (content : Bytes) :
    Except FileError Unit × Store :=
  let parent := (Path.parent? path).getD ""
  match store.stage (if parent = "" then "." else parent) content with
  | .error cause => (.error cause, store)
  | .ok (temporary, staged) =>
    match staged.moveOver temporary path with
    | .error cause => (.error cause, staged.remove temporary)
    | .ok replaced => (.ok (), replaced)

end ConfigTemplate.Store
