import ModuleLinker.MemberKey
import ModuleLinker.Plan.Internalization

namespace ModuleLinker

/-! # Placing types

Of the types that claim a name, some become one with the first of them; of the others at most one
keeps the name. A type that stays public keeps it, and two of them are a conflict.
-/

namespace Plan

open Internalization

/-! ## Types that become one -/

/-- Whether a type becomes part of the first type that claims its name. -/
def joins (p : Policy) (first other : Declaration) : Bool :=
  p.sharesNamespace first.type.namespaceName ||
    (p.options.unionMerge && TypeDef.unites first.module other.module first.type other.type)

/-- The types behind the first of a symbol that become part of it. -/
def mergeSymbol (p : Policy) (s : Symbol) : Logging Merged := do
  let joined := s.others.filter (joins p s.first)
  for other in joined do
    Logging.verbose <| s!"Merging '{s.name}' of '{other.module.name}' into the declaration of " ++
      s!"'{s.first.module.name}'"
  return joined.map fun other => (other.origin, s.first.origin)

/-- The types that become part of others. -/
def mergeSymbols (p : Policy) (table : SymbolTable) : Logging Merged :=
  return (← table.collisions.mapM (mergeSymbol p)).flatten

/-! ## Types of their own -/

/-- A computation that places types; a conflict stops it. -/
abbrev Placing := ExceptT Fault Naming

/-- A type of its own and its place. -/
structure Placed where
  declaration : Declaration
  name : String
  hide : Bool
deriving Repr

/-- The types of a symbol among which the name is given away: none of them has a new name yet. -/
def keepers (decisions : Decisions) (remaining : List Declaration) : List Declaration :=
  remaining.filter fun d => !(decisionOn decisions d.origin).isRename

/-- The types of a symbol that stay public. -/
def publicKeepers (decisions : Decisions) (remaining : List Declaration) : List Declaration :=
  (keepers decisions remaining).filter fun d =>
    decisionOn decisions d.origin == .keep && d.type.flags.isPublic

/-- Places a type; `winner` is the one that keeps the name. -/
def placeType (decisions : Decisions) (winner : Option Origin) (d : Declaration) :
    Naming Placed := do
  let decision := decisionOn decisions d.origin
  match decision with
  | .rename name => return ⟨d, name, true⟩
  | _ =>
    if winner = some d.origin then return ⟨d, d.type.name, decision == .hide⟩
    let name ← Naming.fresh d
    Logging.verbose <| s!"Renaming non-public '{d.name}' of '{d.module.name}' to " ++
      s!"'{qualifiedName d.type.namespaceName name}'"
    return ⟨d, name, decision == .hide⟩

/-- Places the types of a symbol that stay types of their own. -/
def placeSymbol (decisions : Decisions) (merged : Merged) (s : Symbol) : Placing (List Placed) := do
  let remaining := s.contributors.filter fun d => !isMerged merged d.origin
  match publicKeepers decisions remaining with
  -- of more than two the first two are named
  | first :: second :: _ =>
    let fault := Fault.conflict s.name first.module.name second.module.name
    Logging.error fault.message
    throw fault
  | visible =>
    -- a public type wins; without one, the first type that has no new name yet
    let winner := (visible.head?.or (keepers decisions remaining).head?).map Declaration.origin
    remaining.mapM fun d => placeType decisions winner d

/-- Places the types of all symbols. -/
def placeSymbols (decisions : Decisions) (merged : Merged) (table : SymbolTable) :
    Placing (List Placed) :=
  return (← table.symbols.mapM (placeSymbol decisions merged)).flatten

/-- The rename of a placed type, if it has a new name. -/
def renameOf? (x : Placed) : Option Rename :=
  if x.name = x.declaration.type.name then none
  else some ⟨x.declaration.origin.module, x.declaration.name,
    qualifiedName x.declaration.type.namespaceName x.name⟩

/-- The names that are taken from the start: those of all top-level types. -/
def declaredNames (s : ModuleSet) : FreshNames := .of (s.declarations.map Declaration.name)

/-- Decides on hiding and places the types of their own. -/
def placeTypes (s : ModuleSet) (table : SymbolTable) (p : Policy) (merged : Merged) :
    Placing (List Placed) := do
  let decisions ← decideAll table p merged s.declarations
  Logging.verbose s!"{decisions.length} types selected for internalization"
  placeSymbols decisions merged table

end Plan

end ModuleLinker
