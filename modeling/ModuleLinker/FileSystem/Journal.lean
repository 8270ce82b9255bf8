import ModuleLinker.FileSystem.Basic
import ModuleLinker.Log
import ModuleLinker.Text.Utf8

namespace ModuleLinker

/-! # Journals

A journal is a log file while its merge goes on. Notices come to it through a buffer of bytes, so that
whoever reads the file meanwhile sees only what has left the buffer. When the journal is closed, the
file has the text of the whole log, unless another file took its place.
-/

namespace Journal

/-! ## The buffer -/

/-- The number of bytes that the buffer has room for. -/
def capacity : Nat := 8192

/-- The numbers of bytes that reached the file, and that wait in the buffer. -/
structure Buffer where
  written : Nat
  waiting : Nat

namespace Buffer

/-- The buffer after `n` more bytes that are given to it at once. It is emptied when they do not fit;
as many as it could not take at all go past it. -/
def push (b : Buffer) (n : Nat) : Buffer :=
  let b : Buffer := if b.waiting + n > capacity then ⟨b.written + b.waiting, 0⟩ else b
  if n ≥ capacity then { b with written := b.written + n } else { b with waiting := b.waiting + n }

end Buffer

/-- The numbers of bytes of the parts of a notice's line, each of which is given to the buffer by
itself: its word, what divides it from the text, the text and the end of the line. -/
def partSizes (n : Notice) : List Nat := [n.level.word.utf8ByteSize, 2, n.text.utf8ByteSize, 1]

/-- What of a log has reached its file. -/
def visible (verbose : Bool) (log : Log) : Bytes :=
  let sizes := (log.filter (Log.hasLine verbose)).flatMap partSizes
  let buffer := sizes.foldl Buffer.push ⟨0, 0⟩
  (Utf8.encode (log.lineText verbose)).take buffer.written

end Journal

namespace FileSystem

/-! ## Opening, reading and closing -/

/-- Creates an empty log file and makes it the journal. -/
def openJournal (p : Path) (verbose : Bool) (fs : FileSystem) : Except Fault Unit × FileSystem :=
  match create p fs with
  | (.ok (), fs) =>
    match fs.locate p with
    | .ok location => (.ok (), { fs with journal := some ⟨location, verbose⟩ })
    | .error cause => (.error (.file cause), fs)
  | failed => failed

/-- The files as they are once the notices of a log were left. -/
def after (log : Log) (fs : FileSystem) : FileSystem :=
  match fs.journal with
  | some j => fs.put j.location (.file (Journal.visible j.verbose log))
  | none => fs

/-- Closes the journal; `log` are all of its notices. -/
def closeJournal (log : Log) (fs : FileSystem) : FileSystem :=
  match fs.journal with
  | some j => { fs.put j.location (.file (Utf8.encode (log.fileText j.verbose))) with journal := none }
  | none => fs

end FileSystem

/-- The files as they are now, with the journal as far as it was written. -/
def Logging.files (fs : FileSystem) : Logging FileSystem := return fs.after (← get)

end ModuleLinker
