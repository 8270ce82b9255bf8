import ModuleLinker.Module.Lookup
import ModuleLinker.Path

namespace ModuleLinker

/-! # Sets of modules

What a merge works on: the modules to merge, the first of them being the primary one, and modules
that are only looked at.
-/

/-- A module and the file that it comes from. -/
structure LoadedModule where
  path : Path
  module : Module
deriving Repr

/-- The place of something declared by an input: the index of the module and the index there. -/
structure Origin where
  module : Nat
  index : Nat
deriving DecidableEq, Hashable, Repr

/-- A top-level type of an input. -/
structure Declaration where
  origin : Origin
  /-- The module that declares the type. -/
  module : Module
  type : TypeDef
deriving Repr

namespace Declaration

/-- The name of the type with its namespace. -/
def name (d : Declaration) : String := d.type.qualifiedName

end Declaration

/-- The modules of a merge. -/
structure ModuleSet where
  primary : LoadedModule
  /-- The inputs after the primary module. -/
  others : List LoadedModule
  /-- The modules that are referenced but not merged. -/
  references : List LoadedModule
  /-- The module whose attributes the output takes. -/
  attributeSource : Option LoadedModule
deriving Repr

namespace ModuleSet

/-- The modules to merge. -/
def inputs (s : ModuleSet) : List Module := s.primary.module :: s.others.map LoadedModule.module

/-- The modules to merge with their files. -/
def loadedInputs (s : ModuleSet) : List LoadedModule := s.primary :: s.others

/-- All modules: the inputs, then those that are only looked at. -/
def all (s : ModuleSet) : List Module :=
  s.inputs ++ (s.references ++ s.attributeSource.toList).map LoadedModule.module

/-- Every search for the name of a type reference of one of the modules comes to an end. -/
def NamesEnd (s : ModuleSet) : Prop := ∀ m ∈ s.all, m.NamesEnd

/-- The index of the input with a name. -/
def inputIndex? (s : ModuleSet) (name : String) : Option Nat :=
  s.inputs.findIdx? fun m => m.name == name

/-- The first module with a name. -/
def find? (s : ModuleSet) (name : String) : Option Module :=
  s.all.find? fun m => m.name == name

/-- The top-level types of a module, which is the input with the given index. -/
def declarationsOf (m : Module) (index : Nat) : List Declaration :=
  m.types.zipIdx.map fun (type, i) => ⟨⟨index, i⟩, m, type⟩

/-- The top-level types of all inputs, in the order of modules and declarations. -/
def declarations (s : ModuleSet) : List Declaration :=
  s.inputs.zipIdx.flatMap fun (m, i) => declarationsOf m i

/-- The module that tokens of source `i` belong to: an input, or the attribute source behind the
last one. -/
def source? (s : ModuleSet) (i : Nat) : Option Module :=
  s.inputs[i]?.or (s.attributeSource.map LoadedModule.module)

/-- Whether source `i` is an input. -/
def isInput (s : ModuleSet) (i : Nat) : Bool := decide (i < s.inputs.length)

end ModuleSet

end ModuleLinker
