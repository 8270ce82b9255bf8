namespace ModuleLinker

/-- A sequence of octets. -/
abbrev Bytes := List UInt8

/-! # UTF-8

Texts as bytes and back. Bytes that are no UTF-8 are refused with the place of the first defect
and the number of bytes that cannot belong to a character.
-/

/-- The first defect of a byte sequence that should be UTF-8. -/
inductive Utf8Fault where
  /-- `length` bytes from `index` on start no character. -/
  | invalid (length index : Nat)
  /-- The bytes end inside the character that starts at `index`. -/
  | incomplete (index : Nat)
deriving DecidableEq, Repr

namespace Utf8Fault

/-- The wording of a defect. -/
def message : Utf8Fault → String
  | invalid length index => s!"invalid utf-8 sequence of {length} bytes from index {index}"
  | incomplete index => s!"incomplete utf-8 byte sequence from index {index}"

end Utf8Fault

namespace Utf8

/-- The bytes of a text. -/
def encode (s : String) : Bytes :=
  s.toByteArray.data.toList

/-- Whether a byte continues a character. -/
def isContinuation (b : UInt8) : Bool :=
  0x80 ≤ b && b ≤ 0xBF

/-- The bytes that may stand second after the lead byte of a character of three or four bytes:
shorter spellings of a character, surrogates and numbers above the last character are left out. -/
def secondRange (lead : UInt8) : UInt8 × UInt8 :=
  if lead = 0xE0 then (0xA0, 0xBF)
  else if lead = 0xED then (0x80, 0x9F)
  else if lead = 0xF0 then (0x90, 0xBF)
  else if lead = 0xF4 then (0x80, 0x8F)
  else (0x80, 0xBF)

/-- The number of bytes of the character that `lead` starts, 0 if it starts none. -/
def width (lead : UInt8) : Nat :=
  if lead < 0x80 then 1
  else if lead < 0xC2 then 0
  else if lead < 0xE0 then 2
  else if lead < 0xF0 then 3
  else if lead < 0xF5 then 4
  else 0

/-- What is wrong with the character at `index` that `lead` starts, `rest` following it. -/
def characterFault? (index : Nat) (lead : UInt8) (rest : Bytes) : Option Utf8Fault :=
  let second := secondRange lead
  match width lead, rest with
  | 0, _ => some (.invalid 1 index)
  | 1, _ => none
  | _, [] => some (.incomplete index)
  | size, b :: rest =>
    if b < second.1 || second.2 < b then some (.invalid 1 index)
    else if size = 2 then none
    else
      match rest with
      | [] => some (.incomplete index)
      | c :: rest =>
        if !isContinuation c then some (.invalid 2 index)
        else if size = 3 then none
        else
          match rest with
          | [] => some (.incomplete index)
          | d :: _ => if isContinuation d then none else some (.invalid 3 index)

/-- The first defect of the bytes from `index` on; `skip` bytes belong to a sound character. -/
def firstFault (index skip : Nat) : Bytes → Utf8Fault
  | [] => .incomplete index
  | b :: rest =>
    match skip with
    | skip + 1 => firstFault (index + 1) skip rest
    | 0 => (characterFault? index b rest).getD (firstFault (index + 1) (width b - 1) rest)

/-- The text that the bytes spell. -/
def decode (bytes : Bytes) : Except Utf8Fault String :=
  match String.fromUTF8? ⟨bytes.toArray⟩ with
  | some s => .ok s
  | none => .error (firstFault 0 0 bytes)

end Utf8

end ModuleLinker
