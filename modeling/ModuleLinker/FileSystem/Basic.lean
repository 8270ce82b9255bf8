import ModuleLinker.Fault
import ModuleLinker.Path

namespace ModuleLinker

/-! # File systems

Files and directories by location. A path is followed segment by segment from the root or from the
current directory, and every segment but the last has to be a directory. Several files are written
together: all of them are staged before the first one appears at its place.
-/

/-- The names that lead from the root to a file or a directory. -/
abbrev Location := List String

/-- What is found at a location. -/
inductive FileEntry where
  | file (data : Bytes)
  | directory
deriving DecidableEq, Repr

/-- A log file that is being written. -/
structure Journal where
  location : Location
  /-- Details go to it too. -/
  verbose : Bool
deriving DecidableEq, Repr

/-- Files and directories, and the directory that relative paths start from. The root is a directory
and has no entry. -/
structure FileSystem where
  entries : List (Location × FileEntry)
  current : Location
  journal : Option Journal := none
deriving DecidableEq, Repr

/-- A file operation, which may be refused. -/
abbrev FileAction := ExceptT FileFault (StateM FileSystem)

namespace FileSystem

/-! ## Looking -/

/-- What is at a location. -/
def lookup? (fs : FileSystem) (location : Location) : Option FileEntry :=
  if location = [] then some .directory else fs.entries.lookup location

/-- The location after one more segment. -/
def step (location : Location) (segment : String) : Location :=
  match PathPart.ofText? segment with
  | some .up => location.dropLast
  | some (.name text) => location ++ [text]
  | _ => location

/-- The greatest number of bytes of a name. -/
def maxNameSize : Nat := 255

/-- The greatest number of bytes of a path. -/
def maxPathSize : Nat := 4095

/-- Whether a name has more bytes than a directory takes. -/
def isTooLong (name : String) : Bool := name.utf8ByteSize > maxNameSize

/-- Follows segments from a location; each of them is looked up in a directory. -/
def follow (fs : FileSystem) (location : Location) : List String → Except FileFault Location
  | [] => .ok location
  | segment :: rest =>
    match fs.lookup? location with
    | none => .error .notFound
    | some (.file _) => .error .notDirectory
    | some .directory =>
      if isTooLong segment then .error .nameTooLong else fs.follow (step location segment) rest

/-- Refuses a path for what is written, whatever files there are. -/
def checkPath (p : Path) : Except FileFault Unit :=
  if p.hasZero then .error .zeroInName
  else if p.isEmpty then .error .notFound
  else if p.text.utf8ByteSize > maxPathSize then .error .nameTooLong
  else .ok ()

/-- The location that a path leads to; nothing needs to be there. -/
def locate (fs : FileSystem) (p : Path) : Except FileFault Location := do
  checkPath p
  fs.follow (if p.isAbsolute then [] else fs.current) p.segments

/-- What a path leads to. -/
def find? (fs : FileSystem) (p : Path) : Option FileEntry :=
  match fs.locate p with
  | .ok location => fs.lookup? location
  | .error _ => none

/-- Whether a path leads to a file. -/
def isFile (fs : FileSystem) (p : Path) : Bool :=
  match fs.find? p with
  | some (.file _) => true
  | _ => false

/-- Whether a path leads to a directory. -/
def isDirectory (fs : FileSystem) (p : Path) : Bool := fs.find? p == some .directory

/-- The contents of the file that a path leads to. -/
def read (fs : FileSystem) (p : Path) : Except FileFault Bytes := do
  match fs.lookup? (← fs.locate p) with
  | none => .error .notFound
  | some .directory => .error .noDevice
  | some (.file data) => .ok data

/-- The contents of a file that must not be empty. -/
def load (fs : FileSystem) (p : Path) : Except Fault Bytes :=
  match fs.read p with
  | .error cause => .error (.file cause)
  | .ok [] => .error (.emptyFile p.text)
  | .ok data => .ok data

/-- The only absolute path to a location that goes through no points. -/
def pathOf (location : Location) : Path := ⟨"/" ++ "/".intercalate location⟩

/-- The path without detours to what a path leads to. -/
def canonical (fs : FileSystem) (p : Path) : Except FileFault Path := do
  let location ← fs.locate p
  match fs.lookup? location with
  | none => .error .notFound
  | some _ => .ok (pathOf location)

/-- The names in a directory. -/
def children (fs : FileSystem) (location : Location) : List String :=
  fs.entries.filterMap fun (place, _) =>
    match place.getLast? with
    | some name => if place.dropLast = location then some name else none
    | none => none

/-- The files inside a directory that are new or different in a later file system, by their names as
seen from the directory, in order. -/
def changedFiles (before after : FileSystem) (directory : Location) : List (Location × Bytes) :=
  let changed := after.entries.filterMap fun (location, entry) =>
    match directory.isPrefixOf? location, entry with
    | some inner, .file data =>
      if before.lookup? location = some entry then none else some (inner, data)
    | _, _ => none
  changed.mergeSort fun a b => decide ("/".intercalate a.1 ≤ "/".intercalate b.1)

/-! ## Changing -/

/-- The file system without what is at a location. -/
def erase (fs : FileSystem) (location : Location) : FileSystem :=
  { fs with entries := fs.entries.filter fun entry => entry.1 != location }

/-- The file system with an entry at a location. -/
def put (fs : FileSystem) (location : Location) (entry : FileEntry) : FileSystem :=
  { fs with entries := (fs.erase location).entries ++ [(location, entry)] }

/-- Creates the missing directories that segments lead through, from a location on. -/
def createFrom (location : Location) : List String → FileAction Unit
  | [] => return
  | segment :: rest => do
    if isTooLong segment then throw .nameTooLong
    let location := step location segment
    match (← get).lookup? location with
    | some .directory => createFrom location rest
    | some (.file _) => throw (if rest.isEmpty then .alreadyExists else .notDirectory)
    | none => do
      modify (·.put location .directory)
      createFrom location rest

/-- Creates a directory and those around it, as far as they are missing. -/
def createDirectories (p : Path) : FileAction Unit := do
  if p.isEmpty then return
  checkPath p
  let fs ← get
  createFrom (if p.isAbsolute then [] else fs.current) p.segments

/-- Creates the directory that a path lies in; a name alone lies in the current one. -/
def createParent (p : Path) : FileAction Unit :=
  match p.parent? with
  | some parent => createDirectories parent
  | none => return

/-- The file system after its journal lost its place, if it was at a location. -/
def detach (fs : FileSystem) (location : Location) : FileSystem :=
  { fs with journal := fs.journal.filter (·.location != location) }

/-- Puts a file at the end of a path, in place of the file that is there. -/
def place (p : Path) (data : Bytes) : FileAction Unit := do
  let fs ← get
  let location ← fs.locate p
  match fs.lookup? location with
  | some .directory => throw .isDirectory
  | _ => set ((fs.detach location).put location (.file data))

/-- Puts a file that is staged already at the end of a path; there the operating system gets to see
a zero character. -/
def promote (p : Path) (data : Bytes) : FileAction Unit :=
  if p.hasZero then throw .invalidArgument else place p data

/-- Removes the file that a path leads to, if there is one. -/
def remove (p : Path) (fs : FileSystem) : FileSystem :=
  match fs.locate p with
  | .ok location => fs.erase location
  | .error _ => fs

/-! ## Writing several files together -/

/-- Makes sure that there is a directory for each file. -/
def stageAll : List (Path × Bytes) → ExceptT Fault (StateM FileSystem) Unit
  | [] => return
  | (p, _) :: rest => do
    match ← (createParent p).run with
    | .ok () => stageAll rest
    | .error cause => throw (.unwritable p.text cause)

/-- Puts the files in place one after another. If one cannot be placed, those of them that were
are removed. -/
def placeAll (placed : List Path) : List (Path × Bytes) → ExceptT Fault (StateM FileSystem) Unit
  | [] => return
  | (p, data) :: rest => do
    match ← (promote p data).run with
    | .ok () => placeAll (placed ++ [p]) rest
    | .error cause =>
      -- also where a file was there before: its contents are gone by now
      modify fun fs => placed.foldl (fun fs done => remove done fs) fs
      throw (.unwritable p.text cause)

/-- Writes several files: none is placed unless all of them could be staged. -/
def writeAll (files : List (Path × Bytes)) (fs : FileSystem) : Except Fault Unit × FileSystem :=
  (do stageAll files; placeAll [] files : ExceptT Fault (StateM FileSystem) Unit).run.run fs

/-- Creates an empty file, and the directories that it lies in. -/
def create (p : Path) (fs : FileSystem) : Except Fault Unit × FileSystem :=
  match (do createParent p; place p [] : FileAction Unit).run.run fs with
  | (.ok (), fs) => (.ok (), fs)
  | (.error cause, fs) => (.error (.file cause), fs)

end FileSystem

end ModuleLinker
