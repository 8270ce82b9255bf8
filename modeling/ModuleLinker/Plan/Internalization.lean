import ModuleLinker.Plan.Basic

namespace ModuleLinker

/-! # Hiding types

Which types of the inputs after the primary one are made invisible outside the output, and which of
these get new names: those whose name another type claims, or all of them if that is asked for.
-/

/-- What becomes of a type's visibility and name. -/
inductive Internalization where
  /-- The type stays as it is declared. -/
  | keep
  | hide
  /-- The type is hidden and gets a new name. -/
  | rename (name : String)
deriving DecidableEq, Repr

namespace Internalization

/-- Whether the type gets a new name. -/
def isRename : Internalization → Bool
  | rename _ => true
  | _ => false

/-- A type that becomes part of another one, and that other one. -/
abbrev Merged := List (Origin × Origin)

/-- Whether a type becomes part of another one. -/
def isMerged (merged : Merged) (origin : Origin) : Bool := (merged.lookup origin).isSome

/-- Whether another type of the same name stays a type of its own. -/
def collides (table : SymbolTable) (merged : Merged) (d : Declaration) : Bool :=
  (table.symbolOf? d.origin).any fun s =>
    s.contributors.any fun other =>
      other.origin != d.origin && !isMerged merged other.origin

/-- Whether a type may be hidden, as far as its module, its visibility and its namespace go. -/
def isCandidate (p : Policy) (merged : Merged) (d : Declaration) : Bool :=
  d.origin.module != 0 && p.internalizes d.module.name && !isMerged merged d.origin &&
    d.type.flags.isPublic && !p.sharesNamespace d.type.namespaceName

/-- Decides on a type; none stands for a type that stays as it is declared. -/
def decideOn (table : SymbolTable) (p : Policy) (merged : Merged) (d : Declaration) :
    Naming (Option Internalization) := do
  if !isCandidate p merged d then return none
  if p.isExcluded d.module.name d.name then
    Logging.verbose s!"Type '{d.name}' of '{d.module.name}' excluded from internalization"
    return none
  if p.options.keepSerializable && d.type.flags.contains .serializable then return none
  -- hiding alone would leave two types of one name in the output
  if collides table merged d || p.options.renameInternalized then
    let new ← Naming.fresh d
    Logging.verbose <| s!"Renaming '{d.name}' of '{d.module.name}' to " ++
      s!"'{qualifiedName d.type.namespaceName new}'"
    return some (rename new)
  return some hide

/-- The decisions on the types that do not stay as they are declared. -/
abbrev Decisions := List (Origin × Internalization)

/-- Decides on types, one after another. -/
def decideAll (table : SymbolTable) (p : Policy) (merged : Merged) :
    List Declaration → Naming Decisions
  | [] => return []
  | d :: rest => do
    let first ← decideOn table p merged d
    let others ← decideAll table p merged rest
    return (first.map fun decision => (d.origin, decision)).toList ++ others

/-- The decision on a type. -/
def decisionOn (decisions : Decisions) (origin : Origin) : Internalization :=
  (decisions.lookup origin).getD keep

end Internalization

end ModuleLinker
