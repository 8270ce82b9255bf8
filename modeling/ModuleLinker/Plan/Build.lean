import ModuleLinker.Plan.Contents
import ModuleLinker.Plan.Types

namespace ModuleLinker

/-! # Making plans

First the types that become one are found, then the others are placed; resources and attributes do
not depend on either.
-/

namespace Plan

/-- The plan of a merge; two public types of the same name have none. -/
def build (s : ModuleSet) (table : SymbolTable) (p : Policy) : Merging Plan := do
  let merged ← mergeSymbols p table
  let (placed, _) ← (placeTypes s table p merged).run.run (declaredNames s)
  let placed ← Merging.ofExcept placed
  let own := placed.map fun x => (x.declaration.origin, Placement.emit x.name x.hide)
  let joined := merged.map fun (origin, target) => (origin, Placement.into target)
  return {
    placements := own ++ joined
    resources := ← planResources s table p
    attributes := ← planAttributes s table p
    renames := placed.filterMap renameOf?
    hidden := (placed.filter Placed.hide).length }

end Plan

end ModuleLinker
