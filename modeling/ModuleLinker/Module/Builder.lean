import ModuleLinker.Digest.Sha1
import ModuleLinker.Module.Lookup
import ModuleLinker.Token.Allocator

namespace ModuleLinker

/-! # Building modules

Types are described without tokens and get them when they are added to a module: the type first,
then its members, then the types nested in it. References are added once; asking for the same
reference again gives the row that is there.
-/

/-! ## Descriptions of types -/

/-- A field to be declared. -/
structure FieldSpec where
  name : String
  flags : FieldFlags
  signature : TypeSig
deriving Repr

/-- A method to be declared. -/
structure MethodSpec where
  name : String
  flags : MethodFlags
  signature : MethodSig
  body : Option MethodBody
  attributes : List Attribute
deriving Repr

namespace MethodSpec

/-- A public method without body. -/
def ofSignature (name : String) (signature : MethodSig) : MethodSpec :=
  let flags := if signature.hasThis then .publicInstance else .publicStatic
  ⟨name, flags, signature, none, []⟩

/-- Declares the method. -/
def build (s : MethodSpec) : Allocating Method :=
  return ⟨← .fresh Table.method, s.name, s.flags, s.signature, s.body, s.attributes⟩

end MethodSpec

/-- A property to be declared; its accessors are given by the names of methods. -/
structure PropertySpec where
  name : String
  signature : TypeSig
  getter : Option String
  setter : Option String
deriving Repr

/-- An event to be declared; its accessors are given by the names of methods. -/
structure EventSpec where
  name : String
  eventType : Token
  add : Option String
  remove : Option String
deriving Repr

/-- A type to be declared. -/
structure TypeSpec where
  namespaceName : String
  name : String
  flags : TypeFlags
  base : Option Token
  interfaces : List Token
  genericParams : List String
  fields : List FieldSpec
  methods : List MethodSpec
  properties : List PropertySpec
  events : List EventSpec
  nested : List TypeSpec
  attributes : List Attribute
deriving Repr, Inhabited

namespace TypeSpec

/-- A public class without members. -/
def ofName (namespaceName name : String) : TypeSpec :=
  ⟨namespaceName, name, .publicType, none, [], [], [], [], [], [], [], []⟩

/-- The type made invisible outside its module. -/
def hide (s : TypeSpec) : TypeSpec := { s with flags := s.flags.withVisibility .notPublic }

/-- The type with another one nested in it. A nested type has no namespace, and where it was
public as a top-level type it is public as a nested one. -/
def addNested (s inner : TypeSpec) : TypeSpec :=
  let flags := if inner.flags.isPublic then inner.flags.withVisibility .nestedPublic else inner.flags
  { s with nested := s.nested ++ [{ inner with flags, namespaceName := "" }] }

/-- The token of the first method with a name. -/
def accessor? (methods : List Method) (name : Option String) : Option Token := do
  let name ← name
  let method ← methods.find? (·.name == name)
  return method.token

mutual

/-- Declares the type, its members and the types nested in it. -/
def build : TypeSpec → Allocating TypeDef
  | ⟨namespaceName, name, flags, base, interfaces, genericParams, fields, methods, properties,
      events, nested, attributes⟩ => do
    let token ← .fresh Table.typeDef
    let fields ← fields.mapM fun f =>
      return Field.mk (← .fresh Table.field) f.name f.flags f.signature []
    let methods ← methods.mapM MethodSpec.build
    let properties ← properties.mapM fun p =>
      return Property.mk (← .fresh Table.property) p.name p.signature
        (accessor? methods p.getter) (accessor? methods p.setter) []
    let events ← events.mapM fun e =>
      return Event.mk (← .fresh Table.event) e.name e.eventType
        (accessor? methods e.add) (accessor? methods e.remove) []
    let nested ← buildAll nested
    return { token, namespaceName, name, flags, base, interfaces, genericParams, fields, methods,
             properties, events, nested, attributes }

/-- Declares several types, one after another. -/
def buildAll : List TypeSpec → Allocating (List TypeDef)
  | [] => return []
  | s :: rest => do
    let type ← s.build
    return type :: (← buildAll rest)

end

end TypeSpec

/-! ## The builder -/

/-- A module under construction. The first fault is kept and reported at the end; after it, rows
that cannot be added have the null token. -/
structure ModuleBuilder where
  module : Module
  allocator : Allocator
  fault : Option Fault

namespace ModuleBuilder

/-- A module of version 1.0.0.0 that declares nothing yet. -/
def ofName (name : String) (kind : ModuleKind) : ModuleBuilder :=
  ⟨.ofIdentity (.ofName name ⟨1, 0, 0, 0⟩) kind, .empty, none⟩

/-- Runs an allocation and keeps its fault if it is the first one. -/
def allocate (b : ModuleBuilder) (x : Allocating α) : Option α × ModuleBuilder :=
  match x.runFrom b.allocator with
  | (.ok value, allocator) => (some value, { b with allocator })
  | (.error fault, allocator) => (none, { b with allocator, fault := b.fault.or (some fault) })

/-- The index of a referenced module, which is added if none agrees with it. Indices have 32 bits. -/
def reference (b : ModuleBuilder) (identity : Identity) : UInt32 × ModuleBuilder :=
  let references := b.module.references
  match references.findIdx? (·.agrees identity) with
  | some index => (.ofNat index, b)
  | none =>
    (.ofNat references.length,
      { b with module := { b.module with references := references ++ [identity] } })

/-- The token of a type reference, which is added if it is not there. -/
def typeRef (b : ModuleBuilder) (scope : Scope) (namespaceName name : String) :
    Token × ModuleBuilder :=
  let found := b.module.typeRefs.find? fun row =>
    row.scope == scope && row.namespaceName == namespaceName && row.name == name
  match found with
  | some row => (row.token, b)
  | none =>
    match b.allocate (.fresh Table.typeRef) with
    | (none, b) => (.null, b)
    | (some token, b) =>
      let row := ⟨token, scope, namespaceName, name⟩
      (token, { b with module := { b.module with typeRefs := b.module.typeRefs ++ [row] } })

/-- The token of a member reference, which is added if it is not there. -/
def memberRef (b : ModuleBuilder) (parent : Token) (name : String) (signature : MemberSig) :
    Token × ModuleBuilder :=
  let found := b.module.memberRefs.find? fun row =>
    row.parent == parent && row.name == name && row.signature == signature
  match found with
  | some row => (row.token, b)
  | none =>
    match b.allocate (.fresh Table.memberRef) with
    | (none, b) => (.null, b)
    | (some token, b) =>
      let row := ⟨token, parent, name, signature⟩
      (token, { b with module := { b.module with memberRefs := b.module.memberRefs ++ [row] } })

/-- Adds a top-level type; its token is the null token if there was no token for it or for a part
of it. -/
def addType (b : ModuleBuilder) (spec : TypeSpec) : Token × ModuleBuilder :=
  match b.allocate spec.build with
  | (none, b) => (.null, b)
  | (some type, b) =>
    (type.token, { b with module := { b.module with types := b.module.types ++ [type] } })

/-- The token of a type's first method with a name. -/
def methodToken? (b : ModuleBuilder) (type : Token) (name : String) : Option Token := do
  TypeSpec.accessor? (← b.module.findType? type).methods (some name)

/-- Sets the version. -/
def setVersion (b : ModuleBuilder) (version : Version) : ModuleBuilder :=
  { b with module := { b.module with identity := { b.module.identity with version } } }

/-- Sets the strong name. -/
def setStrongName (b : ModuleBuilder) (name : StrongName) : ModuleBuilder :=
  { b with module := { b.module with identity := { b.module.identity with strongName := some name } } }

/-- Sets the version of the runtime that the module is made for. -/
def setPlatform (b : ModuleBuilder) (platform : String) : ModuleBuilder :=
  { b with module := { b.module with platform } }

/-- Adds a resource that is visible outside the module. -/
def addResource (b : ModuleBuilder) (name : String) (data : Bytes) : ModuleBuilder :=
  let resources := b.module.resources ++ [⟨name, .exported, data⟩]
  { b with module := { b.module with resources } }

/-- Adds an attribute of the module. -/
def addAttribute (b : ModuleBuilder) (a : Attribute) : ModuleBuilder :=
  { b with module := { b.module with attributes := b.module.attributes ++ [a] } }

/-- Sets the method that the module is started by. -/
def setEntryPoint (b : ModuleBuilder) (method : Token) : ModuleBuilder :=
  { b with module := { b.module with entryPoint := some method } }

/-- The finished module. Its version id is taken from its display name, so that building the same
module twice gives the same module. -/
def build (b : ModuleBuilder) : Except Fault Module :=
  match b.fault with
  | some fault => .error fault
  | none =>
    let mvid := .ofBytes (Sha1.digest (Utf8.encode b.module.identity.displayName))
    .ok { b.module with mvid }

end ModuleBuilder

end ModuleLinker
