import ModuleLinker.FileSystem.Journal
import ModuleLinker.FileSystem.Wildcard
import ModuleLinker.Image.Sidecar
import ModuleLinker.ModuleSet
import ModuleLinker.Policy

namespace ModuleLinker

/-! # Loading modules

Finding the inputs of a merge and the modules that they refer to. References are followed breadth
first; every name is tried once, and modules that cannot be found are only reported.
-/

namespace Loading

/-! ## One module -/

/-- Reads a module with the symbols beside it. -/
def readModule (fs : FileSystem) (path : Path) : Except Fault Module := do
  let m ← Module.ofImage (← fs.load path)
  let symbols := path.withExtension "pdb"
  if !fs.isFile symbols then return m
  match Sidecar.attach m (← fs.load symbols) with
  | (m, none) => return m
  | (_, some fault) => throw fault

/-- Refuses a module that does not say what kind it is, unless the policy takes it. -/
def checkKind (p : Policy) (path : Path) (m : Module) : Except Fault Unit :=
  if m.kind = .unspecified ∧ ¬ p.options.allowUnspecifiedKind then
    .error (.unspecifiedKind path.text)
  else .ok ()

/-- Loads a module that the merge cannot do without. -/
def load (fs : FileSystem) (p : Policy) (path : Path) : Except Fault LoadedModule :=
  match readModule fs path with
  | .error cause => .error (.unreadable path.text cause)
  | .ok m => do
    checkKind p path m
    return ⟨path, m⟩

/-! ## The inputs -/

/-- The path of a file that has to be there. -/
def existing (fs : FileSystem) (p : Policy) (path : Path) : Except Fault Path :=
  let resolved := p.resolve path
  if fs.isFile resolved then .ok resolved else .error (.missingFile path.text)

/-- Whether a path may be a pattern. -/
def isPattern (path : Path) : Bool := path.text.toList.any fun c => c == '*' || c == '?'

/-- The files of an input path. -/
def filesOf (fs : FileSystem) (p : Policy) (path : Path) : Merging (List Path) := do
  if p.options.expandWildcards && isPattern path then
    -- a pattern without files is no fault as long as another input path has some
    let found ← Merging.ofExcept (fs.expand (p.resolve path))
    if found.isEmpty then Logging.warn s!"No input assemblies match '{path.text}'"
    return found
  return [← Merging.ofExcept (existing fs p path)]

/-- Keeps a file unless it is there already. -/
def keepFile (fs : FileSystem) (kept : List Path) (path : Path) : Merging (List Path) := do
  match fs.canonical path with
  | .error cause => throw (.file cause)
  | .ok canonical =>
    if kept.contains canonical then
      Logging.warn s!"Duplicate input assembly '{path.text}' ignored"
      return kept
    return kept ++ [canonical]

/-- The files of all input paths, each of them once. -/
def inputFiles (fs : FileSystem) (p : Policy) : Merging (List Path) := do
  let found ← p.options.inputs.mapM (filesOf fs p)
  let kept ← found.flatten.foldlM (keepFile fs) []
  if kept.isEmpty then throw (.noFiles (", ".intercalate (p.options.inputs.map Path.text)))
  return kept

/-- Announces modules one by one and refuses the first one whose name is taken. -/
def announce (taken : List LoadedModule) : List LoadedModule → Merging Unit
  | [] => return
  | l :: rest => do
    match taken.find? fun other => other.module.name == l.module.name with
    | some first => throw (.repeatedModule l.path.text l.module.name first.path.text)
    | none =>
      Logging.info s!"Added assembly '{l.path.text}'"
      announce (taken ++ [l]) rest

/-! ## Referenced modules -/

/-- The file of a referenced module: a library or a program in the first directory that has one. -/
def dependency? (fs : FileSystem) (p : Policy) (name : String) : Option Path :=
  let candidates := p.searchDirectories.flatMap fun directory =>
    ["dll", "exe"].map fun extension => directory.join ⟨s!"{name}.{extension}"⟩
  candidates.find? fs.isFile

/-- What has been found of the referenced modules. -/
structure Discovery where
  /-- The names that have been tried. -/
  tried : List String
  found : List LoadedModule
  missing : List String
deriving Repr

/-- Follows the references in a queue. `find?` gives the file of a module and `read` its contents;
`n` bounds the number of references looked at. -/
def follow (find? : String → Option Path) (read : Path → Logging (Except Fault Module)) :
    (n : Nat) → List Identity → Discovery → Logging Discovery
  | 0, _, d => return d
  | _ + 1, [], d => return d
  | n + 1, identity :: queue, d => do
    if d.tried.contains identity.name then follow find? read n queue d
    else
      -- a module that cannot be read is not looked for again either
      let d := { d with tried := identity.name :: d.tried }
      match find? identity.name with
      | none => follow find? read n queue { d with missing := d.missing ++ [identity.name] }
      | some path =>
        match ← read path with
        | .ok m =>
          Logging.verbose s!"Resolved reference '{identity.displayName}' to '{path.text}'"
          follow find? read n (queue ++ m.references) { d with found := d.found ++ [⟨path, m⟩] }
        | .error fault =>
          Logging.warn
            s!"Failed to load reference '{identity.name}' from '{path.text}': {fault.message}"
          follow find? read n queue d

/-- The number of references that can be looked at when `first` of them are there from the start. A
reference takes at least one byte of its image, so neither the names nor the references of one module
outnumber the bytes of all files. -/
def referenceBound (fs : FileSystem) (first : Nat) : Nat :=
  let bytes := fs.entries.foldl (fun n entry =>
    match entry.2 with
    | .file data => n + data.length
    | .directory => n) 0
  first + (first + bytes) * bytes + 1

/-- The modules that the inputs refer to, directly or through others. -/
def discover (fs : FileSystem) (p : Policy) (inputs : List Module) : Logging (List LoadedModule) := do
  let queue := inputs.flatMap Module.references
  let bound := referenceBound fs queue.length
  let read := fun path => return readModule (← Logging.files fs) path
  let d ← follow (dependency? fs p) read bound queue ⟨inputs.map Module.name, [], []⟩
  for name in d.missing.mergeSort fun a b => decide (a ≤ b) do
    Logging.warn s!"Unable to resolve reference '{name}'"
  return d.found

/-! ## All modules -/

/-- Adds the modules that are only looked at to the inputs. -/
def complete (fs : FileSystem) (p : Policy) (primary : LoadedModule) (others : List LoadedModule) :
    Merging ModuleSet := do
  let references ← discover fs p ((primary :: others).map LoadedModule.module)
  match p.options.attributeFile with
  | none => return ⟨primary, others, references, none⟩
  | some path =>
    let path ← Merging.ofExcept (existing fs p path)
    let source ← Merging.ofExcept (load (← Logging.files fs) p path)
    Logging.verbose s!"Using assembly attributes of '{path.text}'"
    return ⟨primary, others, references, some source⟩

/-- The modules of the input files, and what they refer to. -/
def resolve (fs : FileSystem) (p : Policy) : Merging ModuleSet := do
  let files ← inputFiles fs p
  let now ← Logging.files fs
  let inputs ← Merging.ofExcept (files.mapM (load now p))
  announce [] inputs
  match inputs with
  | [] => throw .noModules
  | primary :: others => complete fs p primary others

/-- A module given in memory, with the path that it would have in the working directory. -/
def adoptModule (p : Policy) (m : Module) : Except Fault LoadedModule := do
  let path := p.options.workingDirectory.join ⟨s!"{m.name}.dll"⟩
  checkKind p path m
  return ⟨path, m⟩

/-- Modules given in memory, and what they refer to. -/
def adopt (fs : FileSystem) (p : Policy) (modules : List Module) : Merging ModuleSet := do
  let inputs ← Merging.ofExcept (modules.mapM (adoptModule p))
  announce [] inputs
  match inputs with
  | [] => throw .noModules
  | primary :: others => complete fs p primary others

end Loading

end ModuleLinker
