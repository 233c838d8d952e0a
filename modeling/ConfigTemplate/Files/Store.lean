import ConfigTemplate.Files.Bytes
import ConfigTemplate.Files.Path

/-!
# File stores

A store holds files and directories at locations, which are the names on the way from the root. A
path is resolved in a store segment by segment: every directory that it goes through must exist,
also those that a later `..` leaves again.
-/

namespace ConfigTemplate

/-- Why a file cannot be read or written. -/
inductive FileError where
  | notFound
  | notADirectory
  | isADirectory
  /-- The file is not text. -/
  | invalidData
  /-- The path is not one that a file can have. -/
  | invalidInput
  /-- The path names a directory by its position, such as `.` or `..`. -/
  | resourceBusy
deriving DecidableEq, Repr

def FileError.message : FileError → String
  | .notFound => "NotFound"
  | .notADirectory => "NotADirectory"
  | .isADirectory => "IsADirectory"
  | .invalidData => "InvalidData"
  | .invalidInput => "InvalidInput"
  | .resourceBusy => "ResourceBusy"

/-- The names on the way from the root to a file or directory. -/
abbrev Location := List String

/-- The absolute path of a location. -/
def Location.path (location : Location) : String := "/" ++ Path.ofSegments location

/-- What a location holds. -/
inductive Entry where
  | file (content : Bytes)
  | directory
deriving DecidableEq

structure Store where
  /-- All entries but the root, which is always a directory. -/
  entries : List (Location × Entry)
  workingDirectory : Location
deriving DecidableEq

namespace Store

/-! ## Looking up -/

def entry? (store : Store) (location : Location) : Option Entry :=
  if location = [] then some .directory
  else (store.entries.find? (·.1 = location)).map Prod.snd

def isDirectory (store : Store) (location : Location) : Bool :=
  store.entry? location = some .directory

/-- Follows segments from a location. -/
def walk (store : Store) (location : Location) : List String → Except FileError Location
  | [] => .ok location
  | segment :: rest =>
    if !store.isDirectory location then .error .notADirectory
    else if Path.isTrivial segment then store.walk location rest
    else if segment = ".." then store.walk location.dropLast rest
    else if (store.entry? (location ++ [segment])).isNone then .error .notFound
    else store.walk (location ++ [segment]) rest

/-- The location where the segments of a path start. -/
def startOf (store : Store) (path : String) : Location :=
  if Path.isAbsolute path then [] else store.workingDirectory

/-- Refuses paths that no file can have. -/
def checkPath (path : String) : Except FileError Unit :=
  if '\x00' ∈ path.toList then .error .invalidInput
  else if path = "" then .error .notFound
  else .ok ()

/-- The location of the file or directory at a path. -/
def resolve (store : Store) (path : String) : Except FileError Location := do
  checkPath path
  store.walk (store.startOf path) (Path.segments path)

def pathExists (store : Store) (path : String) : Bool := (store.resolve path).isOk

/-- The bytes of the file at a location. -/
def bytesAt (store : Store) (location : Location) : Except FileError Bytes :=
  match store.entry? location with
  | none => .error .notFound
  | some .directory => .error .isADirectory
  | some (.file content) => .ok content

/-- The text of the file at a location. -/
def textAt (store : Store) (location : Location) : Except FileError String := do
  match (← store.bytesAt location).text? with
  | some text => return text
  | none => throw .invalidData

def readBytes (store : Store) (path : String) : Except FileError Bytes := do
  store.bytesAt (← store.resolve path)

def readText (store : Store) (path : String) : Except FileError String := do
  store.textAt (← store.resolve path)

/-! ## Changing -/

/-- The store with an entry at a location, in the place of the one that was there. -/
def put (store : Store) (location : Location) (entry : Entry) : Store :=
  if (store.entry? location).isSome then
    { store with entries := store.entries.map fun old =>
        if old.1 = location then (location, entry) else old }
  else { store with entries := (location, entry) :: store.entries }

/-- The store without the entry at a location. -/
def remove (store : Store) (location : Location) : Store :=
  { store with entries := store.entries.filter (·.1 ≠ location) }

/-- The store with directories all the way to a location. -/
def addDirectories (store : Store) (location : Location) : Store :=
  ((List.range location.length).map fun n => location.take (n + 1)).foldl
    (fun store ancestor =>
      if (store.entry? ancestor).isSome then store else store.put ancestor .directory)
    store

/-! ## Comparing -/

/-- The files of a store with their bytes. -/
def files (store : Store) : List (Location × Bytes) :=
  store.entries.filterMap fun (location, entry) =>
    match entry with
    | .file content => some (location, content)
    | .directory => none

/-- The files that are not the same in two stores, with their bytes in the second one. -/
def changes (before after : Store) : List (Location × Option Bytes) :=
  let gone := before.files.filterMap fun (location, _) =>
    if (after.bytesAt location).isOk then none else some (location, none)
  let written := after.files.filterMap fun (location, content) =>
    match before.bytesAt location with
    | .ok old => if old = content then none else some (location, some content)
    | .error _ => some (location, some content)
  gone ++ written

end Store

end ConfigTemplate
