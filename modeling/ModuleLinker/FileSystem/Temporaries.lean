import ModuleLinker.FileSystem.Basic

namespace ModuleLinker

/-! # Temporary files

How several files get to a disk. Each of them is staged in a temporary file beside its place, and once all of
them are staged they are renamed one after another. A temporary file goes when it is renamed or when the
writing fails. On a disk that refuses nothing by itself, `FileSystem.writeAll` is what can be seen of this from
outside.
-/

/-- What a disk does that its files do not tell: it names temporary files, and any step may be refused for
want of permission or of space. The steps of one writing are counted by its files. -/
structure Disk where
  /-- The name of the temporary file for the `i`-th file. -/
  temporary : Nat → String
  /-- Why the directories around the `i`-th file cannot be made, if they cannot. -/
  making : Nat → Option FileFault
  /-- Why its temporary file cannot be filled, if it cannot. -/
  staging : Nat → Option FileFault
  /-- Why its temporary file cannot be renamed, if it cannot. -/
  placing : Nat → Option FileFault

namespace FileSystem

/-- The location that a path leads to where the directories on its way are there. -/
def destination (fs : FileSystem) (p : Path) : Location :=
  p.segments.foldl step (if p.isAbsolute then [] else fs.current)

/-- The location of the directory that a path lies in. -/
def surroundings (fs : FileSystem) (p : Path) : Location :=
  match p.parent? with
  | some parent => fs.destination parent
  | none => fs.current

end FileSystem

namespace Disk

open FileSystem

/-- Fills a temporary file beside the end of a path. -/
def stage (disk : Disk) (i : Nat) (p : Path) (data : Bytes) : FileAction Location := do
  if let some cause := disk.making i then throw cause
  createParent p
  let location := (← get).surroundings p ++ [disk.temporary i]
  modify (·.put location (.file data))
  if let some cause := disk.staging i then
    modify (·.erase location)
    throw cause
  return location

/-- Renames a temporary file to the end of a path, in place of the file that is there. -/
def rename (disk : Disk) (i : Nat) (p : Path) (location : Location) : FileAction Unit := do
  if let some cause := disk.placing i then throw cause
  match (← get).lookup? location with
  | some (.file data) => do
    promote p data
    modify (·.erase location)
  | _ => throw .notFound

/-- Stages files; `staged` are the temporary files so far. If a file cannot be staged, they go. -/
def stageAll (disk : Disk) (staged : List Location) :
    List (Path × Bytes) → ExceptT Fault (StateM FileSystem) (List Location)
  | [] => return staged
  | (p, data) :: rest => do
    match ← (disk.stage staged.length p data).run with
    | .ok location => disk.stageAll (staged ++ [location]) rest
    | .error cause =>
      modify fun fs => staged.foldl erase fs
      throw (.unwritable p.text cause)

/-- Renames temporary files one after another. If one cannot be renamed, the files that were placed are
removed, and the temporary files that are left go. -/
def placeAll (disk : Disk) (placed : List Path) :
    List (Path × Location) → ExceptT Fault (StateM FileSystem) Unit
  | [] => return
  | (p, location) :: rest => do
    match ← (disk.rename placed.length p location).run with
    | .ok () => disk.placeAll (placed ++ [p]) rest
    | .error cause =>
      modify fun fs => placed.foldl (fun fs done => remove done fs) fs
      modify fun fs => (location :: rest.map Prod.snd).foldl erase fs
      throw (.unwritable p.text cause)

/-- Writes several files through temporary files. -/
def writeAll (disk : Disk) (files : List (Path × Bytes)) (fs : FileSystem) : Except Fault Unit × FileSystem :=
  (do
    let staged ← disk.stageAll [] files
    disk.placeAll [] ((files.map Prod.fst).zip staged) : ExceptT Fault (StateM FileSystem) Unit).run.run fs

/-- Whether the disk refuses nothing by itself. -/
def Quiet (disk : Disk) : Prop := ∀ i, disk.making i = none ∧ disk.staging i = none ∧ disk.placing i = none

end Disk

end ModuleLinker
