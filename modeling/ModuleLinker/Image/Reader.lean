import ModuleLinker.Image.Writer

namespace ModuleLinker

/-! # Images: reading

Reads what the writer writes, field by field in the same order, and refuses everything else:
other magic bytes or versions, lengths that do not fit the data, unknown tags, and bytes after
the end.
-/

namespace Image

open Reader

/-! ## Identities and attributes -/

/-- The kind of a module with a tag. -/
def decodeKind : Reader ModuleKind := do
  match ← byte with
  | 0 => return .unspecified
  | 1 => return .dll
  | 2 => return .exe
  | 3 => return .winExe
  | code => refuse (.moduleKind code)

/-- Reads a strong name. -/
def decodeStrongName : Reader (Option StrongName) := do
  match ← byte with
  | 0 => return none
  | 1 => return some (.publicKey (← blob))
  | 2 => return some (.token (← u64))
  | tag => refuse (.strongNameTag tag)

/-- Reads an identity. -/
def decodeIdentity : Reader Identity := do
  let name ← text
  let version := ⟨← u16, ← u16, ← u16, ← u16⟩
  let culture ← text
  let strongName ← decodeStrongName
  return { name, version, culture := if culture.isEmpty then none else some culture, strongName }

/-- Reads an argument of an attribute. -/
def decodeValue : Reader AttributeValue := do
  match ← byte with
  | 0 => return .bool (← bool)
  | 1 => return .i32 (← i32)
  | 2 => return .i64 (← i64)
  | 3 => return .string (some (← text))
  | 4 => return .string none
  | 5 => return .typeName (← text)
  | tag => refuse (.valueTag tag)

/-- Reads a named argument. -/
def decodeNamed : Reader NamedArgument := return ⟨← bool, ← text, ← decodeValue⟩

/-- Reads an attribute. -/
def decodeAttribute : Reader Attribute :=
  return ⟨← token, ← list decodeValue, ← list decodeNamed⟩

/-! ## Bodies -/

/-- Reads an operand. -/
def decodeOperand : Reader Operand := do
  match ← byte with
  | 0 => return .none
  | 1 => return .i32 (← i32)
  | 2 => return .i64 (← i64)
  | 3 => return .f64 (← u64)
  | 4 => return .string (← text)
  | 5 => return .token (← token)
  | 6 => return .branch (← u32)
  | 7 => return .switch (← list u32)
  | tag => refuse (.operandTag tag)

/-- Reads an instruction. -/
def decodeInstruction : Reader Instruction := return ⟨← u32, ← u16, ← decodeOperand⟩

/-- Reads the kind of a handler. -/
def decodeHandlerKind : Reader HandlerKind := do
  match ← byte with
  | 0 => return .catch
  | 1 => return .filter
  | 2 => return .finally
  | 4 => return .fault
  | code => refuse (.handlerKind code)

/-- Reads an exception handler. -/
def decodeHandler : Reader Handler :=
  return ⟨← decodeHandlerKind, ← u32, ← u32, ← u32, ← u32, ← token?, ← u32⟩

/-- Reads a body, which comes without places in source texts. -/
def decodeBody : Reader MethodBody :=
  return ⟨← u16, ← bool, ← list TypeSig.decode, ← list decodeInstruction, ← list decodeHandler, []⟩

/-! ## Types -/

/-- Reads a field. -/
def decodeField : Reader Field :=
  return ⟨← token, ← text, ⟨← u32⟩, ← TypeSig.decode, ← list decodeAttribute⟩

/-- Reads a body if there is one. -/
def decodeBody? : Reader (Option MethodBody) := do
  if ← bool then return some (← decodeBody) else return none

/-- Reads a method. -/
def decodeMethod : Reader Method :=
  return ⟨← token, ← text, ⟨← u32⟩, ← MethodSig.decode, ← decodeBody?, ← list decodeAttribute⟩

/-- Reads a property. -/
def decodeProperty : Reader Property :=
  return ⟨← token, ← text, ← TypeSig.decode, ← token?, ← token?, ← list decodeAttribute⟩

/-- Reads an event. -/
def decodeEvent : Reader Event :=
  return ⟨← token, ← text, ← token, ← token?, ← token?, ← list decodeAttribute⟩

/-- Reads a type that may have `depth - 1` levels of types nested in it. -/
def decodeTypeWithin : (depth : Nat) → Reader TypeDef
  | 0 => do refuse (.nesting maxNesting (← position))
  | depth + 1 => do
    let self ← token
    let namespaceName ← text
    let name ← text
    let flags ← u32
    let base ← token?
    let interfaces ← list token
    let genericParams ← list text
    let fields ← list decodeField
    let methods ← list decodeMethod
    let properties ← list decodeProperty
    let events ← list decodeEvent
    let nested ← list (decodeTypeWithin depth)
    let attributes ← list decodeAttribute
    return ⟨self, namespaceName, name, ⟨flags⟩, base, interfaces, genericParams, fields, methods,
      properties, events, nested, attributes⟩

/-- Reads a top-level type. -/
def decodeType : Reader TypeDef := decodeTypeWithin (maxNesting + 1)

/-! ## Modules -/

/-- Reads a scope. -/
def decodeScope : Reader Scope := do
  match ← byte with
  | 0 => return .reference (← u32)
  | 1 => return .enclosing (← token)
  | 2 => return .here
  | tag => refuse (.scopeTag tag)

/-- Reads a type reference. -/
def decodeTypeRef : Reader TypeRef := return ⟨← token, ← decodeScope, ← text, ← text⟩

/-- Reads a member reference. -/
def decodeMemberRef : Reader MemberRef := return ⟨← token, ← token, ← text, ← MemberSig.decode⟩

/-- Reads a resource. -/
def decodeResource : Reader Resource := return ⟨← text, ⟨← u32⟩, ← blob⟩

/-- Reads the signature if there is one. -/
def decodeSignature : Reader (Option Bytes) := do
  if ← bool then return some (← blob) else return none

/-- Reads the header of an image that has `length` bytes. -/
def decodeHeader (length : Nat) : Reader Unit := do
  if (← Reader.bytes 4) != magic then refuse .imageMagic
  let found ← u16
  if found != version then refuse (.imageVersion found)
  skip 2
  let payload := (← u32).toNat
  -- twelve bytes have been read by now, so the difference is exact
  if payload != length - headerLength then refuse (.imageLength payload length)

/-- Reads what follows the header. -/
def decodePayload : Reader Module :=
  return {
    identity := ← decodeIdentity
    kind := ← decodeKind
    platform := ← text
    mvid := .ofBytes (← Reader.bytes 16)
    references := ← list decodeIdentity
    typeRefs := ← list decodeTypeRef
    memberRefs := ← list decodeMemberRef
    types := ← list decodeType
    resources := ← list decodeResource
    attributes := ← list decodeAttribute
    entryPoint := ← token?
    signature := ← decodeSignature }

/-- Reads an image that has `length` bytes to its end. -/
def decode (length : Nat) : Reader Module := do
  decodeHeader length
  let m ← decodePayload
  if 0 < (← remaining) then refuse (.imageTail (← position))
  return m

end Image

namespace Module

/-- The module that an image holds. -/
def ofImage (data : Bytes) : Except Fault Module := (Image.decode data.length).run data

end Module

end ModuleLinker
