import ModuleLinker.Fault
import ModuleLinker.Text.Split

namespace ModuleLinker

/-! # Logs

A merge leaves notices behind: its progress, and what it left out or could not find. A log is the
list of its notices from the first to the last. As lines of a file the duplicates of a log are
summed up at the end.
-/

/-- How much a notice matters. -/
inductive Level where
  | error
  | warning
  | info
  | verbose
  | duplicate
deriving DecidableEq, Repr

namespace Level

/-- Every level. -/
def all : List Level := [error, warning, info, verbose, duplicate]

/-- The word that stands before a notice of the level. -/
def word : Level → String
  | error => "ERROR"
  | warning => "WARN"
  | info => "INFO"
  | verbose => "VERBOSE"
  | duplicate => "DUPLICATE"

end Level

/-- A notice of a merge. -/
inductive Notice where
  /-- What stops the merge. -/
  | error (text : String)
  /-- What the user should know about. -/
  | warning (text : String)
  /-- A step of the merge. -/
  | info (text : String)
  /-- A detail of a step. -/
  | verbose (text : String)
  /-- An entry that was left out because an earlier one takes its place. -/
  | duplicate (kind name : String)
deriving DecidableEq, Repr

namespace Notice

/-- The level of a notice. -/
def level : Notice → Level
  | error _ => .error
  | warning _ => .warning
  | info _ => .info
  | verbose _ => .verbose
  | duplicate .. => .duplicate

/-- The text of a notice. -/
def text : Notice → String
  | error text | warning text | info text | verbose text => text
  | duplicate kind name => s!"{kind} {name}"

/-- A notice with the word of its level. -/
def line (n : Notice) : String := s!"{n.level.word}: {n.text}"

end Notice

/-- The notices of a merge in order. -/
abbrev Log := List Notice

namespace Log

/-- The texts of the notices of a level. -/
def texts (log : Log) (level : Level) : List String :=
  (log.filter (·.level == level)).map Notice.text

/-- Whether some notice of a level has `needle` in its text. -/
def mentions (log : Log) (level : Level) (needle : String) : Bool :=
  (log.texts level).any (Text.occursIn needle)

/-! ## Log files -/

/-- The names of one kind of duplicates. -/
structure DuplicateGroup where
  kind : String
  names : List String
deriving DecidableEq, Repr

namespace DuplicateGroup

/-- The groups with a further duplicate, which starts a group if it is the first of its kind. -/
def add (kind name : String) : List DuplicateGroup → List DuplicateGroup
  | [] => [⟨kind, [name]⟩]
  | g :: rest =>
    if g.kind = kind then { g with names := g.names ++ [name] } :: rest else g :: add kind name rest

/-- The line that sums up a group. -/
def line (g : DuplicateGroup) : String :=
  let names := ", ".intercalate g.names
  s!"INFO: Ignored {g.names.length} duplicate {g.kind}(s): {names}"

end DuplicateGroup

/-- The duplicates of a log by kind, the kinds in the order of their first duplicates. -/
def duplicateGroups (log : Log) : List DuplicateGroup :=
  log.foldl (fun groups notice =>
    match notice with
    | .duplicate kind name => DuplicateGroup.add kind name groups
    | _ => groups) []

/-- Whether a notice has a line of its own in a log file. -/
def hasLine (verbose : Bool) (n : Notice) : Bool :=
  match n with
  | .verbose _ => verbose
  | .duplicate .. => false
  | _ => true

/-- The lines of a log file, each with its end. -/
def joinLines (lines : List String) : String := String.join (lines.map (· ++ "\n"))

/-- The text of the log file of a merge that is not finished; `verbose` lets the details in. -/
def lineText (verbose : Bool) (log : Log) : String :=
  joinLines ((log.filter (hasLine verbose)).map Notice.line)

/-- The text of the log file of a finished merge. -/
def fileText (verbose : Bool) (log : Log) : String :=
  log.lineText verbose ++ joinLines (log.duplicateGroups.map DuplicateGroup.line)

/-- The settings of a log file, spelled out. -/
def fileSettings (verbose : Bool) : String :=
  "FileLogger \x7b verbose: " ++ toString verbose ++ ", .. \x7d"

end Log

/-! ## Leaving notices -/

/-- A computation that leaves notices. -/
abbrev Logging := StateM Log

/-- A computation that leaves notices and may be stopped by a fault. -/
abbrev Merging := ExceptT Fault Logging

namespace Logging

/-- Leaves a notice. -/
def note (n : Notice) : Logging Unit := modify (· ++ [n])

/-- Leaves an error. -/
def error (text : String) : Logging Unit := note (.error text)

/-- Leaves a warning. -/
def warn (text : String) : Logging Unit := note (.warning text)

/-- Tells of a step. -/
def info (text : String) : Logging Unit := note (.info text)

/-- Tells of a detail. -/
def verbose (text : String) : Logging Unit := note (.verbose text)

/-- Tells of an entry that was left out. -/
def duplicate (kind name : String) : Logging Unit := note (.duplicate kind name)

end Logging

namespace Merging

/-- The answer of a computation that leaves no notices. -/
def ofExcept (x : Except Fault α) : Merging α := ExceptT.mk (pure x)

/-- Runs a computation; the answer comes with the notices that it left. -/
def runLog (x : Merging α) : Except Fault α × Log := StateT.run (ExceptT.run x) []

end Merging

end ModuleLinker
