import ModuleLinker.Merge
import ModuleLinker.Traversal

namespace ModuleLinker

/-! # Merging with several workers

The inputs may be traversed at once, and the types of the output may be written at once. Nothing is said
then about the turns of the workers, about the order in which the slots that they filled are listed, or
about which type is written first; only what they have to do is done in the end.
-/

/-- What several workers leave open in a merge. -/
structure Workers where
  /-- The turns of the workers that traverse a set of modules. -/
  turns : ModuleSet → List Nat
  /-- The workers go on until nothing is left to do. -/
  done : ∀ set, ((Traversal.State.start set).run (turns set)).Done
  /-- The order in which slots are listed. -/
  listed : List Symbol → List Symbol
  listed_perm : ∀ slots, (listed slots).Perm slots
  /-- The order in which the results for types come in. -/
  finished : List (Except Fault TypeDef) → List (Except Fault TypeDef)
  finished_perm : ∀ results, (finished results).Perm results

namespace Workers

/-- The symbol table that the workers make of a set of modules. -/
def table (ws : Workers) (set : ModuleSet) : SymbolTable :=
  let s := (Traversal.State.start set).run (ws.turns set)
  Traversal.freeze (ws.listed s.slots) s.resources s.attributes

/-- The fault of a result, if it is one. -/
def fault? : Except Fault TypeDef → Option Fault
  | .error fault => some fault
  | .ok _ => none

/-- The types in their order, unless one could not be written; then it is the first fault to come in that
counts. -/
def collect (ws : Workers) (results : List (Except Fault TypeDef)) : Except Fault (List TypeDef) :=
  match (ws.finished results).findSome? fault? with
  | some fault => .error fault
  | none => results.mapM id

/-- The types of several shapes. -/
def writeAll (ws : Workers) (l : Linkage) (sub : Substitution) (shapes : List Shape) :
    Except Fault (List TypeDef) :=
  ws.collect (shapes.map (Shape.write l sub))

end Workers

/-- The output of a plan, its types written by workers. -/
def Relocation.runBy (ws : Workers) (set : ModuleSet) (plan : Plan) (policy : Policy) :
    Merging Module := do
  let l := Linkage.ofSet set policy
  let (shapes, substitution, allocator) ← layOut l plan
  let start : ImportTables := ⟨substitution, allocator, [], [], []⟩
  let (imported, tables) := (importAll l plan).run.run start
  let attributes ← Merging.ofExcept imported
  let types ← Merging.ofExcept (ws.writeAll l tables.substitution shapes)
  let primary := set.primary.module
  let entryPoint ← Merging.ofExcept (primary.entryPoint.mapM (tables.substitution.resolve 0))
  Logging.verbose <| s!"Rewrote {types.length} types with {tables.substitution.size} substitutions, " ++
    s!"{tables.typeRefs.length} type references, {tables.memberRefs.length} member references"
  return { Module.ofIdentity primary.identity primary.kind with
    platform := primary.platform, references := tables.references, typeRefs := tables.typeRefs
    memberRefs := tables.memberRefs, types, resources := plan.resources, attributes, entryPoint }

namespace Merge

/-- The plan of a merge and the module that it leads to, made by workers. -/
def linkBy (ws : Workers) (set : ModuleSet) (p : Policy) : Merging (Plan × Module) := do
  let table := ws.table set
  Logging.verbose <| s!"Symbol table holds {table.symbols.length} types, " ++
    s!"{table.collisions.length} collisions"
  let plan ← Plan.build set table p
  let m ← Relocation.runBy ws set plan p
  Merging.ofExcept m.checkClosed
  return (plan, m)

/-- The module that modules in memory merge to by the work of several workers, and its image. -/
def modulesBy (ws : Workers) (fs : FileSystem) (modules : List Module) (o : Options) :
    Merging Emission.Written := do
  let p ← (optionsFor modules o).validate
  let set ← Loading.adopt fs p modules
  let (_, m) ← linkBy ws set p
  let signer ← Signer.load fs p
  let m ← Merging.ofExcept (Emission.finish set p signer m)
  Emission.encode p signer m

end Merge

end ModuleLinker
