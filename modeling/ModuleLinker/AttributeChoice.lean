import ModuleLinker.Log
import ModuleLinker.ModuleSet
import ModuleLinker.Policy

namespace ModuleLinker

/-! # Choosing attributes

Attributes of several modules end up at one place. Of attributes with the same type and arguments
one is kept; further ones with other arguments are kept if the attribute type permits it.
-/

/-- Where an attribute comes from. -/
inductive AttributeSource where
  | input (index : Nat)
  | attributeFile
deriving DecidableEq, Repr

namespace AttributeSource

/-- The source, spelled out. -/
def text : AttributeSource → String
  | input index => s!"Input({index})"
  | attributeFile => "AttributeFile"

/-- The number of the source among those that tokens belong to. -/
def number (s : ModuleSet) : AttributeSource → Nat
  | input index => index
  | attributeFile => s.inputs.length

end AttributeSource

/-- An attribute with the name of its type. -/
structure NamedAttribute where
  name : String
  value : Attribute
deriving DecidableEq, Repr

namespace NamedAttribute

/-- The attribute types that permit several applications wherever nothing else is known. -/
def repeatable : List String :=
  ["System.Runtime.CompilerServices.InternalsVisibleToAttribute",
   "System.Reflection.AssemblyMetadataAttribute"]

/-- Whether an attribute type permits several applications: the first module that declares it and
says so decides. -/
def isRepeatable (s : ModuleSet) (name : String) : Bool :=
  (s.all.findSome? fun m => m.attributeUsage? name).getD (repeatable.contains name)

/-- Whether an attribute is kept beside those that are kept already. -/
def offer (s : ModuleSet) (p : Policy) (source : AttributeSource) (kept : List NamedAttribute)
    (a : NamedAttribute) : Logging Bool := do
  let others := kept.filter (·.name == a.name)
  if others.any fun other => other.value.sameArguments a.value then
    Logging.duplicate "attribute" a.name
    return false
  if others.isEmpty || p.options.allowMultipleAttributes || isRepeatable s a.name then return true
  Logging.verbose
    s!"Attribute '{a.name}' from {source.text} does not allow multiple applications"
  Logging.duplicate "attribute" a.name
  return false

end NamedAttribute

end ModuleLinker
