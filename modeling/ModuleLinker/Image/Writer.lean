import ModuleLinker.Module.Basic
import ModuleLinker.Signature.Codec

namespace ModuleLinker

/-! # Images: writing

The image of a module is a header of twelve bytes and a payload. The header holds the magic
bytes, the version of the format and the length of the payload. Lists are written after the
number of their elements, texts and blobs after the number of their bytes, and choices after a
tag byte. Places in source texts are not part of the image.
-/

namespace Image

open Encoding

/-- The first bytes of an image. -/
def magic : Bytes := [0x44, 0x52, 0x50, 0x4B]

/-- The version of the format. -/
def version : UInt16 := 1

/-- The number of bytes before the payload. -/
def headerLength : Nat := 12

/-- The greatest depth at which a type may be nested. -/
def maxNesting : Nat := 64

/-! ## Identities and attributes -/

/-- The tag of a module's kind. -/
def kindCode : ModuleKind → UInt8
  | .unspecified => 0
  | .dll => 1
  | .exe => 2
  | .winExe => 3

/-- The written form of a strong name. -/
def encodeStrongName : Option StrongName → Encoding
  | none => byte 0
  | some (.publicKey key) => byte 1 ++ blob key
  | some (.token value) => byte 2 ++ u64 value

/-- The written form of an identity; the neutral culture is the empty text. -/
def encodeIdentity (i : Identity) : Encoding :=
  text i.name ++ u16 i.version.major ++ u16 i.version.minor ++ u16 i.version.build
    ++ u16 i.version.revision ++ text (i.culture.getD "") ++ encodeStrongName i.strongName

/-- The written form of an attribute's argument. -/
def encodeValue : AttributeValue → Encoding
  | .bool value => byte 0 ++ bool value
  | .i32 value => byte 1 ++ i32 value
  | .i64 value => byte 2 ++ i64 value
  | .string (some value) => byte 3 ++ text value
  | .string none => byte 4
  | .typeName name => byte 5 ++ text name

/-- The written form of a named argument. -/
def encodeNamed (a : NamedArgument) : Encoding :=
  bool a.isField ++ text a.name ++ encodeValue a.value

/-- The written form of an attribute. -/
def encodeAttribute (a : Attribute) : Encoding :=
  token a.type ++ list encodeValue a.fixed ++ list encodeNamed a.named

/-! ## Bodies -/

/-- The written form of an operand. -/
def encodeOperand : Operand → Encoding
  | .none => byte 0
  | .i32 value => byte 1 ++ i32 value
  | .i64 value => byte 2 ++ i64 value
  | .f64 bits => byte 3 ++ u64 bits
  | .string value => byte 4 ++ text value
  | .token t => byte 5 ++ token t
  | .branch target => byte 6 ++ u32 target
  | .switch targets => byte 7 ++ list u32 targets

/-- The written form of an instruction. -/
def encodeInstruction (i : Instruction) : Encoding :=
  u32 i.offset ++ u16 i.opcode ++ encodeOperand i.operand

/-- The tag of a handler's kind. -/
def handlerCode : HandlerKind → UInt8
  | .catch => 0
  | .filter => 1
  | .finally => 2
  | .fault => 4

/-- The written form of an exception handler. -/
def encodeHandler (h : Handler) : Encoding :=
  byte (handlerCode h.kind) ++ u32 h.tryOffset ++ u32 h.tryLength ++ u32 h.handlerOffset
    ++ u32 h.handlerLength ++ token? h.catchType ++ u32 h.filterOffset

/-- The written form of a body, without its places in source texts. -/
def encodeBody (b : MethodBody) : Encoding :=
  u16 b.maxStack ++ bool b.initLocals ++ list TypeSig.encode b.locals
    ++ list encodeInstruction b.code ++ list encodeHandler b.handlers

/-! ## Types -/

/-- The written form of a field. -/
def encodeField (x : Field) : Encoding :=
  token x.token ++ text x.name ++ u32 x.flags.bits ++ x.signature.encode
    ++ list encodeAttribute x.attributes

/-- The written form of a method. -/
def encodeMethod (x : Method) : Encoding :=
  token x.token ++ text x.name ++ u32 x.flags.bits ++ x.signature.encode
    ++ (match x.body with
        | some body => byte 1 ++ encodeBody body
        | none => byte 0)
    ++ list encodeAttribute x.attributes

/-- The written form of a property. -/
def encodeProperty (x : Property) : Encoding :=
  token x.token ++ text x.name ++ x.signature.encode ++ token? x.getter ++ token? x.setter
    ++ list encodeAttribute x.attributes

/-- The written form of an event. -/
def encodeEvent (x : Event) : Encoding :=
  token x.token ++ text x.name ++ token x.eventType ++ token? x.add ++ token? x.remove
    ++ list encodeAttribute x.attributes

mutual

/-- The written form of a type, the types nested in it included. -/
def encodeType : TypeDef → Encoding
  | ⟨self, namespaceName, name, flags, base, interfaces, genericParams, fields, methods,
      properties, events, nested, attributes⟩ =>
    token self ++ text namespaceName ++ text name ++ u32 flags.bits ++ token? base
      ++ list token interfaces ++ list text genericParams ++ list encodeField fields
      ++ list encodeMethod methods ++ list encodeProperty properties ++ list encodeEvent events
      ++ count nested.length ++ encodeTypes nested ++ list encodeAttribute attributes

/-- The written forms of several types, one after another. -/
def encodeTypes : List TypeDef → Encoding
  | [] => .empty
  | t :: rest => encodeType t ++ encodeTypes rest

end

/-! ## Modules -/

/-- The written form of a scope. -/
def encodeScope : Scope → Encoding
  | .reference index => byte 0 ++ u32 index
  | .enclosing outer => byte 1 ++ token outer
  | .here => byte 2

/-- The written form of a type reference. -/
def encodeTypeRef (r : TypeRef) : Encoding :=
  token r.token ++ encodeScope r.scope ++ text r.namespaceName ++ text r.name

/-- The written form of a member reference. -/
def encodeMemberRef (r : MemberRef) : Encoding :=
  token r.token ++ token r.parent ++ text r.name ++ r.signature.encode

/-- The written form of a resource. -/
def encodeResource (r : Resource) : Encoding :=
  text r.name ++ u32 r.flags.bits ++ blob r.data

/-- What comes before the version id in the payload. -/
def encodeHead (m : Module) : Encoding :=
  encodeIdentity m.identity ++ byte (kindCode m.kind) ++ text m.platform

/-- What comes after the version id and before the signature. -/
def encodeTables (m : Module) : Encoding :=
  list encodeIdentity m.references ++ list encodeTypeRef m.typeRefs
    ++ list encodeMemberRef m.memberRefs ++ count m.types.length ++ encodeTypes m.types
    ++ list encodeResource m.resources ++ list encodeAttribute m.attributes ++ token? m.entryPoint

/-- The written form of the signature. -/
def encodeSignature : Option Bytes → Encoding
  | some signature => byte 1 ++ blob signature
  | none => byte 0

/-- All that the image holds after its header. -/
def encodePayload (m : Module) : Encoding :=
  encodeHead m ++ ofBytes m.mvid.bytes ++ encodeTables m ++ encodeSignature m.signature

end Image

/-- The image of a module, and the places in it that are filled in later. -/
structure Image where
  bytes : Bytes
  /-- Where the version id starts. -/
  mvidOffset : Nat
  /-- Where the signature starts and how many bytes it has. -/
  signatureSlot : Option (Nat × Nat)
deriving DecidableEq, Repr

namespace Image

open Encoding in
/-- The image of a module. -/
def ofModule (m : Module) : Except Fault Image := do
  let payload ← (encodePayload m).result
  if UInt32.size ≤ payload.length then throw (.malformed .imageRange)
  let header := magic ++ (u16 version).bytes ++ [0, 0] ++ (u32 (UInt32.ofNat payload.length)).bytes
  -- the signature ends the payload, so its place follows from the two lengths
  let length := headerLength + payload.length
  return {
    bytes := header ++ payload
    mvidOffset := headerLength + (encodeHead m).bytes.length
    signatureSlot := m.signature.map fun s => (length - s.length, s.length) }

end Image

end ModuleLinker
