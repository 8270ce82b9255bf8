import ModuleLinker.Definition
import ModuleLinker.Identity.Basic

namespace ModuleLinker

/-! # Modules

A module declares types, and refers to types and members of other modules by the rows of two
tables. These rows lead to the module's own list of referenced modules.
-/

/-- What a module is compiled to. -/
inductive ModuleKind where
  | dll
  | exe
  | winExe
  | unspecified
deriving DecidableEq, Repr, Inhabited

/-- Where a referenced type is found. -/
inductive Scope where
  /-- In the referenced module with this index. -/
  | reference (index : UInt32)
  /-- Nested in another referenced type. -/
  | enclosing (outer : Token)
  /-- In the module itself. -/
  | here
deriving DecidableEq, Repr

/-- A reference to a type. -/
structure TypeRef where
  token : Token
  scope : Scope
  namespaceName : String
  name : String
deriving DecidableEq, Repr

/-- A reference to a field or a method of a type. -/
structure MemberRef where
  token : Token
  /-- The type that has the member. -/
  parent : Token
  name : String
  signature : MemberSig
deriving DecidableEq, Repr

/-- A named block of data inside a module. -/
structure Resource where
  name : String
  flags : ResourceFlags
  data : Bytes
deriving DecidableEq, Repr

/-- A module version id, which has 16 bytes. -/
structure Mvid where
  bytes : Bytes
  length_bytes : bytes.length = 16
deriving DecidableEq, Repr

namespace Mvid

/-- The id of the first 16 bytes; zeros stand for bytes that are missing. -/
def ofBytes (bytes : Bytes) : Mvid := ⟨(bytes ++ List.replicate 16 0).take 16, by simp⟩

/-- The id of all zeros, which says nothing. -/
def zero : Mvid := ofBytes []

end Mvid

/-- A compiled module. -/
structure Module where
  identity : Identity
  kind : ModuleKind
  /-- The version of the runtime that the module is made for. -/
  platform : String
  mvid : Mvid
  references : List Identity
  typeRefs : List TypeRef
  memberRefs : List MemberRef
  /-- The top-level types. -/
  types : List TypeDef
  resources : List Resource
  attributes : List Attribute
  entryPoint : Option Token
  /-- The signature, or the room for one. -/
  signature : Option Bytes
deriving Repr

namespace Module

/-- A module that declares nothing. -/
def ofIdentity (identity : Identity) (kind : ModuleKind) : Module :=
  { identity, kind, platform := "v4.0.30319", mvid := .zero, references := [], typeRefs := []
    memberRefs := [], types := [], resources := [], attributes := [], entryPoint := none
    signature := none }

/-- The name of a module. -/
def name (m : Module) : String := m.identity.name

/-- All types, nested ones too, in the order of declaration, with their full names. -/
def walk (m : Module) : List (TypeDef × String) := m.types.flatMap TypeDef.walk

/-- The module with every method changed by `change`. -/
def mapMethods (change : Method → Method) (m : Module) : Module :=
  { m with types := TypeDef.mapMethodsAll change m.types }

/-- The module without places in source texts. -/
def withoutPoints (m : Module) : Module := m.mapMethods Method.withoutPoints

end Module

/-! ## Agreement of modules

Modules are compared part by part. Two kinds of parts may agree without being the same: identities,
whose strong names are left out, and floating point operands, which are compared as numbers.
-/

/-! ## Floating point numbers -/

namespace Binary64

/-- The bits of a number without its sign. -/
def magnitude (bits : UInt64) : UInt64 := bits &&& 0x7FFFFFFFFFFFFFFF

/-- Whether the bits stand for no number: the exponent is all ones and the fraction is not zero. -/
def isNaN (bits : UInt64) : Bool := 0x7FF0000000000000 < magnitude bits

/-- Whether the bits stand for the positive or the negative zero. -/
def isZero (bits : UInt64) : Bool := magnitude bits == 0

/-- Whether the bits stand for equal numbers. The two zeros are equal, and what is no number equals
nothing. -/
def agrees (a b : UInt64) : Bool :=
  !isNaN a && !isNaN b && (a == b || isZero a && isZero b)

end Binary64

/-! ## Bodies -/

namespace Operand

/-- Whether two operands agree. -/
def agrees : Operand → Operand → Bool
  | .f64 a, .f64 b => Binary64.agrees a b
  | x, y => x == y

/-- The bits of an operand that is a floating point number. -/
def float? : Operand → Option UInt64
  | .f64 bits => some bits
  | _ => Option.none

end Operand

/-- Whether two instructions agree. -/
def Instruction.agrees (i j : Instruction) : Bool :=
  i.offset == j.offset && i.opcode == j.opcode && i.operand.agrees j.operand

namespace MethodBody

/-- Whether two bodies agree. -/
def agrees (a b : MethodBody) : Bool :=
  a.maxStack == b.maxStack && a.initLocals == b.initLocals && a.locals == b.locals &&
    a.code.isEqv b.code Instruction.agrees && a.handlers == b.handlers && a.points == b.points

/-- The bits of the floating point numbers in the code. -/
def floats (b : MethodBody) : List UInt64 := b.code.filterMap (·.operand.float?)

end MethodBody

/-! ## Types -/

namespace Method

/-- Whether two methods agree. -/
def agrees (x y : Method) : Bool :=
  x.token == y.token && x.name == y.name && x.flags == y.flags && x.signature == y.signature &&
    (match x.body, y.body with
      | some a, some b => a.agrees b
      | none, none => true
      | _, _ => false) &&
    x.attributes == y.attributes

/-- The bits of the floating point numbers in the body. -/
def floats (x : Method) : List UInt64 := (x.body.map MethodBody.floats).getD []

end Method

namespace TypeDef

mutual

/-- Whether two types agree, the types nested in them included. -/
def agrees : TypeDef → TypeDef → Bool
  | ⟨token, namespaceName, name, flags, base, interfaces, genericParams, fields, methods,
      properties, events, nested, attributes⟩,
    ⟨token', namespaceName', name', flags', base', interfaces', genericParams', fields', methods',
      properties', events', nested', attributes'⟩ =>
    token == token' && namespaceName == namespaceName' && name == name' && flags == flags' &&
      base == base' && interfaces == interfaces' && genericParams == genericParams' &&
      fields == fields' && methods.isEqv methods' Method.agrees && properties == properties' &&
      events == events' && agreeAll nested nested' && attributes == attributes'

/-- Whether there are as many types on both sides, and they agree one by one. -/
def agreeAll : List TypeDef → List TypeDef → Bool
  | [], [] => true
  | t :: ts, u :: us => t.agrees u && agreeAll ts us
  | _, _ => false

end

mutual

/-- The bits of the floating point numbers in a type, in nested types too. -/
def floats : TypeDef → List UInt64
  | ⟨_, _, _, _, _, _, _, _, methods, _, _, nested, _⟩ =>
    methods.flatMap Method.floats ++ floatsAll nested

/-- The bits of the floating point numbers in several types. -/
def floatsAll : List TypeDef → List UInt64
  | [] => []
  | t :: rest => t.floats ++ floatsAll rest

end

end TypeDef

/-! ## Modules -/

namespace Module

/-- Whether two modules agree. -/
def agrees (m n : Module) : Bool :=
  m.identity.agrees n.identity && m.kind == n.kind && m.platform == n.platform &&
    m.mvid == n.mvid && m.references.isEqv n.references Identity.agrees &&
    m.typeRefs == n.typeRefs && m.memberRefs == n.memberRefs && TypeDef.agreeAll m.types n.types &&
    m.resources == n.resources && m.attributes == n.attributes && m.entryPoint == n.entryPoint &&
    m.signature == n.signature

/-- The strong name of the module, then those of the modules that it refers to. -/
def strongNames (m : Module) : List (Option StrongName) :=
  m.identity.strongName :: m.references.map Identity.strongName

/-- The bits of the floating point numbers in the code of a module. -/
def floats (m : Module) : List UInt64 := TypeDef.floatsAll m.types

end Module

end ModuleLinker
