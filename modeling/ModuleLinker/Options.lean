import ModuleLinker.Log
import ModuleLinker.Module.Basic
import ModuleLinker.Path
import ModuleLinker.Text.Split

namespace ModuleLinker

/-! # Options

What the user of a merge can choose. Whether the modules are worked on at once or one after another is no
choice here, since nothing in the result depends on it. There always is a working directory: a user who names
none means the one that the merge is started in. Faults in exclude patterns, in wildcards and in XML are told
without their reasons, which depend on how such texts are read.
-/

/-- What the output is compiled to. -/
inductive TargetKind where
  | dll
  | exe
  | winExe
  /-- The same as the first input. -/
  | sameAsPrimary
deriving DecidableEq, Repr

namespace TargetKind

/-- Every target kind. -/
def all : List TargetKind := [dll, exe, winExe, sameAsPrimary]

/-- The written name of a target kind. -/
def name : TargetKind → String
  | dll => "Dll"
  | exe => "Exe"
  | winExe => "WinExe"
  | sameAsPrimary => "SameAsPrimaryAssembly"

/-- Reads a target kind with blanks around it; whatever is none counts as `sameAsPrimary`, with a
warning. -/
def parse (text : String) : Logging TargetKind := do
  match all.find? (·.name == Text.trim text) with
  | some kind => return kind
  | none =>
    Logging.warn <| s!"TargetKind '{text}' should be [Exe|Dll|WinExe|SameAsPrimaryAssembly]; " ++
      s!"set to SameAsPrimaryAssembly"
    return sameAsPrimary

/-- The kind of the output of a merge whose first input is of kind `primary`. -/
def resolve (primary : ModuleKind) : TargetKind → ModuleKind
  | dll => .dll
  | exe => .exe
  | winExe => .winExe
  | sameAsPrimary => primary

end TargetKind

/-- The entries of a list with commas or semicolons between them; blank entries are none. -/
def parseDelimited (text : String) : List String :=
  ((Text.split (fun c => c == ',' || c == ';') text).map Text.trim).filter (!·.isEmpty)

/-- The choices of a merge. -/
structure Options where
  /-- The modules to merge; the first one is the primary module. -/
  inputs : List Path
  /-- Where modules are looked for that are referenced but not merged. -/
  searchDirectories : List Path
  output : Path
  targetKind : TargetKind
  /-- The runtime version of the output; otherwise that of the primary module. -/
  platform : Option String
  /-- The last directory to look for referenced modules. -/
  platformDirectory : Option Path
  /-- Types of the same name become one type where they fit together. -/
  unionMerge : Bool
  /-- Types of all modules but the primary one are hidden. -/
  internalize : Bool
  /-- Every hidden type gets a new name. -/
  renameInternalized : Bool
  /-- Serialisable types are not hidden. -/
  keepSerializable : Bool
  /-- The modules whose types are hidden; without any it is all of them. -/
  internalizeModules : List String
  /-- Patterns of the types that are not hidden. -/
  excludePatterns : List String
  /-- Resources of the same name are all kept, under new names. -/
  allowDuplicateResources : Bool
  /-- The namespaces in which types of the same name always become one type. -/
  sharedNamespaces : List String
  /-- The attributes of all modules are kept, not only those of the primary one. -/
  copyAttributes : Bool
  /-- Every attribute may be applied several times. -/
  allowMultipleAttributes : Bool
  /-- The module whose attributes take the place of all others. -/
  attributeFile : Option Path
  /-- The names of the attributes that are dropped. -/
  droppedAttributes : List String
  /-- Linker metadata is merged instead of kept once. -/
  mergeLinkerMetadata : Bool
  /-- Modules that do not say their kind are taken. -/
  allowUnspecifiedKind : Bool
  /-- Input paths may be patterns. -/
  expandWildcards : Bool
  /-- Documentation files beside the inputs are merged. -/
  mergeDocumentation : Bool
  /-- The output does not list the modules that it was made of. -/
  omitManifest : Bool
  /-- Places in source texts are kept and written to a sidecar. -/
  keepSymbols : Bool
  keyFile : Option Path
  keyContainer : Option String
  /-- Room for a signature is left empty. -/
  delaySign : Bool
  logFile : Option Path
  /-- Details go to the log file too. -/
  verbose : Bool
  /-- The directory that relative paths start from. -/
  workingDirectory : Path
deriving DecidableEq, Repr

end ModuleLinker
