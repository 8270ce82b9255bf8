import ModuleLinker.Relocation.Import
import ModuleLinker.Relocation.Shape

namespace ModuleLinker

/-! # Relocation

A plan is carried out in two passes: first every type of the output gets its tokens, then the
references of the inputs are imported, and with the counterparts of all tokens at hand the types are
written.
-/

namespace Relocation

/-- Imports the references of a module. -/
def importModule (l : Linkage) (source : Nat) (m : Module) : Importing Unit := do
  m.typeRefs.forM fun row => do let _ ← Importing.typeRef l source row.token
  m.memberRefs.forM fun row => do let _ ← Importing.memberRef l source row.token

/-- Imports a planned attribute. -/
def importAttribute (l : Linkage) (planned : PlannedAttribute) : Importing Attribute := do
  let source := planned.source.number l.set
  let m ← Importing.module l source
  match m.attributes[planned.index]? with
  | none => Importing.unbound (.plannedAttribute planned.index)
  | some a => return { a with type := ← Importing.type l source a.type }

/-- Imports all references of the inputs, and then the planned attributes. -/
def importAll (l : Linkage) (plan : Plan) : Importing (List Attribute) := do
  l.set.inputs.zipIdx.forM fun (m, source) => importModule l source m
  plan.attributes.mapM (importAttribute l)

/-- The shapes of a plan with the substitution of their tokens, and the allocator after it. -/
def layOut (l : Linkage) (plan : Plan) : Merging (List Shape × Substitution × Allocator) := do
  let (shapes, redirects) ← (Shape.buildAll l plan).run.run []
  let shapes ← Merging.ofExcept shapes
  let (substitution, allocator) ← Merging.ofExcept (Shape.substitution shapes redirects)
  return (shapes, substitution, allocator)

/-- The output of a plan. It has the identity, kind and platform of the primary module and is neither
signed nor has a version id of its own. -/
def run (set : ModuleSet) (plan : Plan) (policy : Policy) : Merging Module := do
  let l := Linkage.ofSet set policy
  let (shapes, substitution, allocator) ← layOut l plan
  let start : ImportTables := ⟨substitution, allocator, [], [], []⟩
  let (imported, tables) := (importAll l plan).run.run start
  let attributes ← Merging.ofExcept imported
  let types ← Merging.ofExcept (Shape.writeAll l tables.substitution shapes)
  let primary := set.primary.module
  let entryPoint ← Merging.ofExcept (primary.entryPoint.mapM (tables.substitution.resolve 0))
  Logging.verbose <| s!"Rewrote {types.length} types with {tables.substitution.size} substitutions, " ++
    s!"{tables.typeRefs.length} type references, {tables.memberRefs.length} member references"
  return { Module.ofIdentity primary.identity primary.kind with
    platform := primary.platform, references := tables.references, typeRefs := tables.typeRefs
    memberRefs := tables.memberRefs, types, resources := plan.resources, attributes, entryPoint }

end Relocation

end ModuleLinker
