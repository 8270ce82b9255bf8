import ModuleLinker.MemberKey
import ModuleLinker.ModuleSet
import ModuleLinker.Policy

namespace ModuleLinker

/-! # The setting of a relocation

The modules and the policy of a merge, with the names of the types of every module at hand.
-/

/-- What every step of a relocation looks at. -/
structure Linkage where
  set : ModuleSet
  policy : Policy
  /-- The names of types, for every module that tokens belong to. -/
  tables : List NameTable

namespace Linkage

/-- The setting for a set of modules. -/
def ofSet (set : ModuleSet) (policy : Policy) : Linkage :=
  let modules := set.inputs ++ (set.attributeSource.map LoadedModule.module).toList
  ⟨set, policy, modules.map NameTable.ofModule⟩

/-- The names of the types of a module by its number. -/
def names (l : Linkage) (source : Nat) : NameTable := (l.tables[source]?).getD ⟨[]⟩

/-- The name of an input by its number. -/
def inputName (l : Linkage) (source : Nat) : String := ((l.set.inputs[source]?).map Module.name).getD ""

end Linkage

end ModuleLinker
