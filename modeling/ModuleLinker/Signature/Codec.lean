import ModuleLinker.Bytes.Encoding
import ModuleLinker.Bytes.Reader
import ModuleLinker.Signature.Basic

namespace ModuleLinker

/-! # Signatures as bytes

Each type starts with a code byte that tells what follows, so a written signature shows where it
ends. Tokens of types are written as coded indices: the row, then two bits for the table.
-/

/-! ## Coded indices -/

namespace Token

/-- The coded index of a type's token. -/
def codedIndex (t : Token) : Except Fault UInt32 :=
  if t.table = Table.typeDef then .ok (t.row <<< 2)
  else if t.table = Table.typeRef then .ok ((t.row <<< 2) ||| 1)
  else .error (.malformed (.codedTable t))

/-- Writes the coded index of a type's token. -/
def encodeCoded (t : Token) : Encoding :=
  match t.codedIndex with
  | .ok index => .compressed index
  | .error fault => .stop fault

/-- Reads a coded index; bits of the row above the 24th are lost. -/
def decodeCoded : Reader Token := do
  let index ← Reader.compressed
  let tag := index &&& 3
  if tag = 0 then return .ofRow Table.typeDef (index >>> 2)
  if tag = 1 then return .ofRow Table.typeRef (index >>> 2)
  Reader.refuse (.codedTag tag.toNat)

end Token

/-! ## Types -/

/-- The code byte of a primitive type. -/
def Primitive.code : Primitive → UInt8
  | void => 0x01
  | bool => 0x02
  | char => 0x03
  | i1 => 0x04
  | u1 => 0x05
  | i2 => 0x06
  | u2 => 0x07
  | i4 => 0x08
  | u4 => 0x09
  | i8 => 0x0A
  | u8 => 0x0B
  | r4 => 0x0C
  | r8 => 0x0D
  | string => 0x0E
  | i => 0x18
  | u => 0x19
  | object => 0x1C

/-- The primitive type of a code byte. -/
def Primitive.ofCode? (code : UInt8) : Option Primitive :=
  all.find? fun p => p.code == code

namespace TypeSig

mutual

/-- The written form of a type. -/
def encode : TypeSig → Encoding
  | .primitive p => .byte p.code
  | .pointer s => .byte 0x0F ++ s.encode
  | .byRef s => .byte 0x10 ++ s.encode
  | .valueType t => .byte 0x11 ++ t.encodeCoded
  | .classType t => .byte 0x12 ++ t.encodeCoded
  | .typeParam n => .byte 0x13 ++ .compressed n
  | .instantiation base arguments =>
    .byte 0x15 ++ base.encode ++ .compressed (UInt32.ofNat arguments.length) ++ encodeAll arguments
  | .array s => .byte 0x1D ++ s.encode
  | .methodParam n => .byte 0x1E ++ .compressed n

/-- The written forms of several types, one after another. -/
def encodeAll : List TypeSig → Encoding
  | [] => .empty
  | s :: rest => s.encode ++ encodeAll rest

end

/-- Reads a type of at most `depth` bytes; a type inside another takes at least one byte less. -/
def decodeWithin : (depth : Nat) → Reader TypeSig
  | 0 => throw .outOfBounds
  | depth + 1 => do
    let code ← Reader.byte
    if let some p := Primitive.ofCode? code then return .primitive p
    match code with
    | 0x0F => return .pointer (← decodeWithin depth)
    | 0x10 => return .byRef (← decodeWithin depth)
    | 0x11 => return .valueType (← Token.decodeCoded)
    | 0x12 => return .classType (← Token.decodeCoded)
    | 0x13 => return .typeParam (← Reader.compressed)
    | 0x15 =>
      let base ← decodeWithin depth
      if !base.isNamed then Reader.refuse (.instantiationBase (← Reader.position))
      return .instantiation base (← Reader.list (decodeWithin depth))
    | 0x1D => return .array (← decodeWithin depth)
    | 0x1E => return .methodParam (← Reader.compressed)
    | _ => Reader.refuse (.elementType code ((← Reader.position) - 1))

/-- Reads a type. -/
def decode : Reader TypeSig := do decodeWithin (← Reader.remaining)

end TypeSig

/-! ## Members -/

/-- The lead byte of a field signature, in its four low bits. -/
def fieldConvention : UInt8 := 0x06

/-- The bit of a method signature's lead byte that tells of generic parameters. -/
def genericConvention : UInt8 := 0x10

/-- The bit of a method signature's lead byte that tells of an instance. -/
def thisConvention : UInt8 := 0x20

/-- Whether a lead byte starts a field signature. -/
def isFieldConvention (lead : UInt8) : Bool := lead &&& 0x0F == fieldConvention

namespace MethodSig

/-- The lead byte of a method signature. -/
def convention (s : MethodSig) : UInt8 :=
  (if s.hasThis then thisConvention else 0) |||
    (if 0 < s.genericParams then genericConvention else 0)

/-- The written form of a method signature. -/
def encode (s : MethodSig) : Encoding :=
  .byte s.convention ++ (if 0 < s.genericParams then .compressed s.genericParams else .empty)
    ++ .compressed (UInt32.ofNat s.params.length) ++ s.result.encode ++ TypeSig.encodeAll s.params

/-- Reads what follows the lead byte of a method signature. -/
def decodeAfter (lead : UInt8) : Reader MethodSig := do
  let genericParams ← if lead &&& genericConvention != 0 then Reader.compressed else pure 0
  let count ← Reader.count
  let result ← TypeSig.decode
  let params ← Reader.times TypeSig.decode count
  return { hasThis := lead &&& thisConvention != 0, genericParams, result, params }

/-- Reads a method signature. -/
def decode : Reader MethodSig := do
  let lead ← Reader.byte
  if isFieldConvention lead then Reader.refuse .fieldForMethod
  decodeAfter lead

end MethodSig

namespace MemberSig

/-- The written form of a member signature. -/
def encode : MemberSig → Encoding
  | .field s => .byte fieldConvention ++ s.encode
  | .method s => s.encode

/-- Reads a member signature. -/
def decode : Reader MemberSig := do
  let lead ← Reader.byte
  if isFieldConvention lead then return .field (← TypeSig.decode)
  return .method (← MethodSig.decodeAfter lead)

end MemberSig

end ModuleLinker
