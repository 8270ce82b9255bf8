import ModuleLinker.AttributeChoice
import ModuleLinker.FreshNames
import ModuleLinker.SymbolTable

namespace ModuleLinker

/-! # Plans

What a merge is going to do: the place of every top-level type of the inputs in the output, and the
resources and module attributes of the output.
-/

/-- The place of a top-level type in the output. -/
inductive Placement where
  /-- A type of its own, called `name`, and hidden if `hide` says so. -/
  | emit (name : String) (hide : Bool)
  /-- A part of the type that is declared at `target`. -/
  | into (target : Origin)
deriving DecidableEq, Repr

/-- A top-level type of an input that gets a new name, by its qualified names. -/
structure Rename where
  module : Nat
  old : String
  new : String
deriving DecidableEq, Repr

/-- An attribute of the output, by its place among the attributes of its module. -/
structure PlannedAttribute where
  source : AttributeSource
  index : Nat
deriving DecidableEq, Repr

/-- What a merge is going to do. -/
structure Plan where
  placements : List (Origin × Placement)
  resources : List Resource
  attributes : List PlannedAttribute
  renames : List Rename
  /-- The number of types that are hidden. -/
  hidden : Nat
deriving DecidableEq, Repr

namespace Plan

/-- The place of a type. -/
def placement? (p : Plan) (origin : Origin) : Option Placement := p.placements.lookup origin

/-- The old and new names of the renamed types of a module. -/
def renamesOf (p : Plan) (module : Nat) : List (String × String) :=
  (p.renames.filter (·.module == module)).map fun r => (r.old, r.new)

end Plan

/-- A computation that leaves notices and takes fresh names. -/
abbrev Naming := StateT FreshNames Logging

namespace Naming

/-- Takes a fresh name for a type of a module. -/
def fresh (d : Declaration) : Naming String :=
  modifyGet fun names => names.rename d.type.namespaceName d.type.name d.module.name

end Naming

end ModuleLinker
