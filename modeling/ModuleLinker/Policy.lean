import ModuleLinker.Attribute
import ModuleLinker.Options
import ModuleLinker.Pattern.Parser

namespace ModuleLinker

/-! # Policies

The options of a merge once they have been found usable: patterns are read, and the directories to
search are listed. All stages of a merge work from the policy.
-/

/-- Usable options. -/
structure Policy where
  options : Options
  /-- The directories to look for referenced modules in, without repetition. -/
  searchDirectories : List Path
  /-- The types that match one of them are not hidden. -/
  exclude : List Pattern
deriving DecidableEq, Repr

namespace Options

/-- A path as seen from the working directory. -/
def resolve (o : Options) (p : Path) : Path := Path.absoluteFrom o.workingDirectory p

/-- The directories without those that agree with an earlier one. -/
def distinctPaths (paths : List Path) : List Path :=
  paths.foldl (fun kept p => if kept.any p.agrees then kept else kept ++ [p]) []

/-- The directories to search: the working directory, those that were asked for, and that of the
platform. -/
def directories (o : Options) : List Path :=
  distinctPaths
    (o.workingDirectory :: (o.searchDirectories ++ o.platformDirectory.toList).map o.resolve)

/-- The first defect of the options that needs no pattern to be read. -/
def defect? (o : Options) : Option Misconfiguration :=
  if o.inputs.isEmpty then some .noInputs
  else
    match o.inputs.findIdx? Path.isEmpty with
    | some index => some (.emptyInput index)
    | none =>
      if o.output.isEmpty then some .noOutput
      else if o.keyFile.isSome && o.keyContainer.isSome then some .twoKeys
      else (o.excludePatterns.findIdx? fun p => (Text.trim p).isEmpty).map .blankPattern

/-- Reads the exclude patterns. They have no meaning unless types are hidden. -/
def readPatterns (o : Options) : Merging (List Pattern) := do
  if o.internalize then
    for pattern in o.excludePatterns do
      Logging.info
        s!"Excluding namespaces/types matching pattern '{pattern}' from being internalized"
    Merging.ofExcept (Pattern.parseAll o.excludePatterns)
  else
    if !o.excludePatterns.isEmpty then
      Logging.warn "Internalize exclude patterns are ignored because internalize is disabled"
    return []

/-- The policy of the options, if they can be used. -/
def validate (o : Options) : Merging Policy := do
  match o.defect? with
  | some cause => throw (.misconfigured cause)
  | none => return { options := o, searchDirectories := o.directories, exclude := ← o.readPatterns }

end Options

namespace Policy

/-- Whether a type matches an exclude pattern, by its name or by its name after that of its module
in brackets. -/
def isExcluded (p : Policy) (moduleName fullName : String) : Bool :=
  p.exclude.any fun pattern =>
    pattern.matchesIn fullName || pattern.matchesIn s!"[{moduleName}]{fullName}"

/-- The name of a module without the ending of its file. -/
def moduleStem (name : String) : String :=
  ((Text.before? ".dll" name).or (Text.before? ".exe" name)).getD name

/-- Whether the types of a module are hidden. -/
def internalizes (p : Policy) (moduleName : String) : Bool :=
  p.options.internalize && (p.options.internalizeModules.isEmpty ||
    p.options.internalizeModules.any fun name =>
      (moduleStem (Text.trim name)).map Char.toLower == moduleName.map Char.toLower)

/-- Whether types of the same name in a namespace always become one type. -/
def sharesNamespace (p : Policy) (namespaceName : String) : Bool :=
  p.options.sharedNamespaces.any fun shared =>
    namespaceName == shared ||
      (Text.after? shared namespaceName).any fun rest => rest.toList.head? == some '.'

/-- Whether attributes of a type are dropped. -/
def drops (p : Policy) (attributeName : String) : Bool :=
  p.options.droppedAttributes.any (Attribute.nameMatches attributeName)

/-- A path as seen from the working directory. -/
def resolve (p : Policy) (path : Path) : Path := p.options.resolve path

end Policy

end ModuleLinker
