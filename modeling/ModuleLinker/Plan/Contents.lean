import ModuleLinker.Manifest
import ModuleLinker.Plan.Basic
import ModuleLinker.Xml.LinkerMetadata

namespace ModuleLinker

/-! # Planning attributes and resources

The attributes of the output are those of the primary module, of all inputs, or of a module of their
own. Dropped ones are left out first, then those that cannot stand beside earlier ones.

The first resource of a name is kept. Later ones are left out, kept under a name that starts with
the name of their module, or merged into the first one if they are linker metadata.
-/

namespace Plan

/-! ## Attributes -/

/-- The modules that the output takes its attributes from. -/
def attributeModules (s : ModuleSet) (p : Policy) : List (AttributeSource × Module) :=
  if !p.options.copyAttributes then [(.input 0, s.primary.module)]
  else
    match s.attributeSource with
    | some loaded => [(.attributeFile, loaded.module)]
    | none => s.inputs.zipIdx.map fun (m, i) => (.input i, m)

/-- The attributes kept so far, with their places. -/
abbrev KeptAttributes := List (PlannedAttribute × NamedAttribute)

/-- Whether the attribute is the only one of its type in all inputs. -/
def isOnly (table : SymbolTable) (source : AttributeSource) (name : String) : Bool :=
  match source with
  | .input _ => (table.attributeOrigins name).length == 1
  | .attributeFile => false

/-- Takes an attribute at a place of a module into account. -/
def planAttribute (s : ModuleSet) (table : SymbolTable) (p : Policy) (m : Module)
    (place : PlannedAttribute) (kept : KeptAttributes) (a : Attribute) : Logging KeptAttributes := do
  let named : NamedAttribute := ⟨m.typeNameOrToken a.type, a⟩
  if p.drops named.name then
    Logging.verbose s!"Dropping attribute '{named.name}' of '{m.name}'"
    return kept
  if isOnly table place.source named.name then return kept ++ [(place, named)]
  if ← named.offer s p place.source (kept.map (·.2)) then return kept ++ [(place, named)]
  return kept

/-- The module attributes of the output. -/
def planAttributes (s : ModuleSet) (table : SymbolTable) (p : Policy) :
    Logging (List PlannedAttribute) := do
  let places := (attributeModules s p).flatMap fun (source, m) =>
    m.attributes.zipIdx.map fun (a, i) => (m, PlannedAttribute.mk source i, a)
  let kept ← places.foldlM (fun kept (m, place, a) => planAttribute s table p m place kept a) []
  return kept.map (·.1)

/-! ## Resources -/

/-- A computation that leaves notices and takes names of resources. -/
abbrev ResourceNaming := StateT (List String) Logging

/-- The `n`-th name to try for a resource, counted from 1; the first one has no number. -/
def resourceCandidate (moduleName name : String) (n : Nat) : String :=
  if n ≤ 1 then s!"{moduleName}.{name}" else s!"{moduleName}_{n}.{name}"

/-- Takes a name for a later resource of a name. Different numbers give different names, so one of
one more than the taken names is free. -/
def freshResourceName (moduleName name : String) : ResourceNaming String := do
  let taken ← get
  let numbers := List.range' 1 (taken.length + 1)
  let n := (numbers.find? fun n => !taken.contains (resourceCandidate moduleName name n)).getD 1
  let new := resourceCandidate moduleName name n
  set (new :: taken)
  return new

/-- The data of the resources at some places. -/
def resourceData (s : ModuleSet) (origins : List Origin) : List Bytes :=
  origins.filterMap fun origin => do
    let m ← s.inputs[origin.module]?
    let resource ← m.resources[origin.index]?
    return resource.data

/-- The first linker metadata of a name with the later ones merged into it. If one of them cannot be
read, the first one stays alone. -/
def mergeLinkerResource (s : ModuleSet) (first : Resource) (origins : List Origin) :
    Logging Resource := do
  match Xml.mergeLinkerDocuments (resourceData s origins) with
  | .ok data =>
    Logging.verbose s!"Merged {origins.length} linker metadata files into '{first.name}'"
    return { first with data }
  | .error fault =>
    Logging.warn <| s!"Unable to merge linker metadata '{first.name}', keeping the first one: " ++
      s!"{fault.message}"
    return first

/-- What becomes of a resource at a place. -/
def planResource (s : ModuleSet) (table : SymbolTable) (p : Policy) (moduleName : String)
    (origin : Origin) (r : Resource) : ResourceNaming (Option Resource) := do
  -- the output gets a list of its own
  if r.name = Manifest.resourceName then return none
  let origins := table.resourceOrigins r.name
  let merges := p.options.mergeLinkerMetadata && Xml.isLinkerMetadata r.name
  if origins.head? = some origin then
    if merges && 1 < origins.length then return some (← mergeLinkerResource s r origins)
    return some r
  -- its contents are part of the first one already
  if merges then return none
  if p.options.allowDuplicateResources then
    let name ← freshResourceName moduleName r.name
    Logging.verbose s!"Keeping duplicate resource '{r.name}' of '{moduleName}' as '{name}'"
    return some { r with name }
  Logging.duplicate "resource" r.name
  return none

/-- The resources of the output without the list of modules. -/
def planResources (s : ModuleSet) (table : SymbolTable) (p : Policy) : Logging (List Resource) := do
  let places := s.inputs.zipIdx.flatMap fun (m, i) =>
    m.resources.zipIdx.map fun (r, j) => (m.name, Origin.mk i j, r)
  let plan := places.mapM fun (name, origin, r) => planResource s table p name origin r
  let (kept, _) ← plan.run (table.resources.map (·.1))
  return kept.filterMap id

end Plan

end ModuleLinker
