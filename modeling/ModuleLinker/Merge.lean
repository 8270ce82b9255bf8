import ModuleLinker.Closure
import ModuleLinker.Emission
import ModuleLinker.Loading
import ModuleLinker.Plan.Build
import ModuleLinker.Relocation.Output

namespace ModuleLinker

/-! # Merging

The whole way from options to the files of an output. Modules in memory are merged without a file
being written; from files, the first fault ends the merge with a notice, and nothing is written then.
-/

namespace Merge

/-- The plan of a merge and the module that it leads to, which is closed. -/
def link (set : ModuleSet) (p : Policy) : Merging (Plan × Module) := do
  let table := SymbolTable.ofSet set
  Logging.verbose <| s!"Symbol table holds {table.symbols.length} types, " ++
    s!"{table.collisions.length} collisions"
  let plan ← Plan.build set table p
  let m ← Relocation.run set plan p
  Merging.ofExcept m.checkClosed
  return (plan, m)

/-! ## Modules in memory -/

/-- The options for modules in memory: they take the place of the input files, and the first one
names the output if nothing else does. -/
def optionsFor (modules : List Module) (o : Options) : Options :=
  let inputs := modules.map fun m => Path.mk s!"{m.name}.dll"
  { o with inputs, output := if o.output.isEmpty then inputs.head?.getD o.output else o.output }

/-- The module that modules in memory merge to, and its image. -/
def modules (fs : FileSystem) (modules : List Module) (o : Options) : Merging Emission.Written := do
  let p ← (optionsFor modules o).validate
  let set ← Loading.adopt fs p modules
  let (_, m) ← link set p
  let signer ← Signer.load fs p
  let m ← Merging.ofExcept (Emission.finish set p signer m)
  Emission.encode p signer m

/-! ## Modules from files -/

/-- What a merge amounts to. -/
structure Outcome where
  files : Emission.Files
  /-- The identities of the inputs. -/
  merged : List Identity
  /-- The number of types that were hidden. -/
  hidden : Nat
  /-- The number of types that were renamed. -/
  renamed : Nat
deriving Repr

/-- A computation that leaves notices, may be stopped by a fault and changes files. -/
abbrev Running := ExceptT Fault (StateT FileSystem Logging)

namespace Running

/-- A computation that changes no files. -/
def ofMerging (x : Merging α) : Running α := ExceptT.mk (StateT.lift x.run)

/-- Writes files together. -/
def write (files : List (Path × Bytes)) : Running Unit := do
  let (result, fs) := FileSystem.writeAll files (← get)
  set fs
  match result with
  | .ok () => return
  | .error fault => throw fault

end Running

/-- A number of thousandths of a second as seconds. -/
def seconds (milliseconds : Nat) : String :=
  let fraction := toString (milliseconds % 1000)
  s!"{milliseconds / 1000}." ++ String.ofList (List.replicate (3 - fraction.length) '0') ++ fraction

/-- Merges the input files and writes the output; `elapsed` is the time that it takes, in thousandths
of a second. -/
def run (o : Options) (elapsed : Nat) : Running Outcome := do
  let p ← .ofMerging o.validate
  Logging.info
    s!"Merging {o.inputs.length} assemblies to '{(p.resolve o.output).text}'"
  let fs ← get
  let set ← .ofMerging (Loading.resolve fs p)
  let (plan, m) ← .ofMerging (link set p)
  let files ← .ofMerging (Emission.files fs set p plan m)
  Running.write files.toList
  Emission.announce files
  Logging.info s!"Merge succeeded in {seconds elapsed} s"
  return ⟨files, set.inputs.map Module.identity, plan.hidden, plan.renames.length⟩

/-- What is left of a merge: its answer, its notices and the files. -/
structure Result where
  answer : Except Fault Outcome
  log : Log
  files : FileSystem

/-- Merges the input files; a fault is the last notice. -/
def logged (o : Options) (elapsed : Nat) (fs : FileSystem) : Result :=
  let ((answer, files), log) := ((run o elapsed).run.run fs).run []
  match answer with
  | .ok outcome => ⟨.ok outcome, log, files⟩
  | .error fault => ⟨.error fault, log ++ [.error fault.message], files⟩

/-- Merges the input files and writes the notices to the log file, if there is to be one. A log file
that cannot be created stops the merge before it starts. -/
def repack (o : Options) (elapsed : Nat) (fs : FileSystem) : Result :=
  match o.logFile with
  | none => logged o elapsed fs
  | some path =>
    match fs.openJournal path o.verbose with
    | (.error fault, fs) => ⟨.error fault, [], fs⟩
    | (.ok (), fs) =>
      let result := logged o elapsed fs
      { result with files := result.files.closeJournal result.log }

end Merge

end ModuleLinker
