import ClusterBench.Failure
import ClusterBench.Text.Blank
import ClusterBench.Text.Utf8

/-!
# File trees

A tree of directories and files below the working directory. Paths are resolved component by
component; what lies above the working directory is out of reach. A compressed file is kept as
what was compressed: its own bytes are no text.
-/

namespace ClusterBench

/-- What a name in the tree stands for. -/
inductive FileEntry
  | directory
  | plain (bytes : List UInt8)
  /-- A compressed file. -/
  | packed (bytes : List UInt8)
deriving DecidableEq

def FileEntry.bytes : FileEntry → Except FileFault (List UInt8)
  | .plain bytes => .ok bytes
  | .packed _ => .error .notText
  | .directory => .error .isDirectory

/-- A path from the working directory, the last name first. -/
abbrev Location := List String

structure Files where
  entries : List (Location × FileEntry)

def joinPath (directory name : String) : String :=
  if directory.isEmpty || name.startsWith "/" then name
  else if directory.endsWith "/" then directory ++ name
  else directory ++ "/" ++ name

namespace Files

def empty : Files := ⟨[]⟩

/-- The working directory and the one above it are always there. -/
def entry? (files : Files) (location : Location) : Option FileEntry :=
  if location = [] ∨ location = ["/"] ∨ location = [".."] then some .directory
  else files.entries.lookup location

def put (files : Files) (location : Location) (entry : FileEntry) : Files :=
  ⟨(location, entry) :: files.entries.filter (·.1 != location)⟩

/-- The names of a path, without those that lead nowhere, and whether it has to be a directory. -/
def namesOf (path : String) : List String × Bool :=
  let parts := (splitWhere (· == '/') path.toList).map String.ofList
  let names := parts.filter fun part => part != "" && part != "."
  let start := if path.startsWith "/" then ["/"] else []
  (start ++ names, parts.getLast? == some "" || parts.getLast? == some ".")

/-- Follows names downwards; everything but the last name has to be a directory. -/
def follow (files : Files) : Location → List String → Except FileFault Location
  | location, [] => .ok location
  | location, name :: names =>
    match files.entry? location with
    | some .directory =>
      if name = ".." then follow files (if location = [] then [".."] else location.tail) names
      else follow files (name :: location) names
    | some _ => .error .notDirectory
    | none => .error .notFound

def resolve (files : Files) (path : String) : Except FileFault Location := do
  if path.isEmpty then .error .notFound
  let (names, asDirectory) := namesOf path
  let location ← files.follow [] names
  match files.entry? location with
  | some .directory | none => return location
  | some _ => if asDirectory then .error .notDirectory else return location

def contains (files : Files) (path : String) : Bool :=
  match files.resolve path with
  | .ok location => (files.entry? location).isSome
  | .error _ => false

/-- What a path leads to; a directory can be opened, but not read. -/
def open? (files : Files) (path : String) : Except FileFault FileEntry := do
  let location ← files.resolve path
  match files.entry? location with
  | some entry => return entry
  | none => .error .notFound

def readText (files : Files) (path : String) : Except FileFault String := do
  match Utf8.decode? (← (← files.open? path).bytes) with
  | some text => return text
  | none => .error .notText

/-- The place where a file can be written: its directory is there and it is none itself. -/
def writable (files : Files) (path : String) : Except FileFault Location := do
  let location ← files.resolve path
  match files.entry? location, files.entry? location.tail with
  | some .directory, _ => .error .isDirectory
  | some _, _ => return location
  | none, some .directory => if (namesOf path).2 then .error .isDirectory else return location
  | none, some _ => .error .notDirectory
  | none, none => .error .notFound

def write (files : Files) (path : String) (entry : FileEntry) : Except FileFault Files := do
  return files.put (← files.writable path) entry

def append (files : Files) (path : String) (bytes : List UInt8) : Except FileFault Files := do
  let location ← files.writable path
  match files.entry? location with
  | some (.plain old) => return files.put location (.plain (old ++ bytes))
  | _ => return files.put location (.plain bytes)

def createFrom (files : Files) : Location → List String → Except FileFault Files
  | _, [] => .ok files
  | location, name :: names =>
    if name = ".." then createFrom files (if location = [] then [".."] else location.tail) names
    else
      match files.entry? (name :: location) with
      | some .directory => createFrom files (name :: location) names
      | some _ => .error (if names.isEmpty then .alreadyExists else .notDirectory)
      | none => createFrom (files.put (name :: location) .directory) (name :: location) names

def createDirectories (files : Files) (path : String) : Except FileFault Files :=
  files.createFrom [] (namesOf path).1

def directoryOf (path : String) : String :=
  String.ofList (path.toList.reverse.dropWhile (· != '/')).reverse

/-- Creates or replaces a file, and the directories that it needs. -/
def place (files : Files) (path : String) (entry : FileEntry) : Except FileFault Files := do
  (← files.createDirectories (directoryOf path)).write path entry

def remove (files : Files) (path : String) : Except FileFault Files := do
  let location ← files.resolve path
  match files.entry? location with
  | some .directory => .error .isDirectory
  | some _ => return ⟨files.entries.filter (·.1 != location)⟩
  | none => .error .notFound

def paths (files : Files) : List String :=
  let names := files.entries.filterMap fun (location, entry) =>
    if entry = .directory then none else some ("/".intercalate location.reverse)
  names.mergeSort fun a b => !decide (b < a)

end Files

/-- A computation that may change files and may fail; what it has written before it fails stays. -/
abbrev Filing (α : Type) := ExceptT Failure (StateM Files) α

namespace Filing

def ask {α : Type} (f : Files → Except FileFault α) : Filing α := fun files =>
  match f files with
  | .ok value => (.ok value, files)
  | .error fault => (.error (.of (.file fault)), files)

def change (f : Files → Except FileFault Files) : Filing Unit := fun files =>
  match f files with
  | .ok changed => (.ok (), changed)
  | .error fault => (.error (.of (.file fault)), files)

def within {α : Type} (context : String) (action : Filing α) : Filing α := fun files =>
  match action files with
  | (.ok value, files) => (.ok value, files)
  | (.error f, files) => (.error (f.within context), files)

def lift {α : Type} (result : Except Failure α) : Filing α := fun files => (result, files)

def bytes (entry : FileEntry) : Filing (List UInt8) :=
  lift (entry.bytes.mapError fun fault => .of (.file fault))

end Filing

end ClusterBench
