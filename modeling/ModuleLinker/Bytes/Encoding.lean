import ModuleLinker.Fault

namespace ModuleLinker

/-! # Written forms

An encoding is what a value is written as: the bytes, and the fault that cut the writing short,
if one did. Encodings are put one after another with `++`; what follows a fault is not written.
-/

/-- Bytes written up to a possible fault. -/
structure Encoding where
  bytes : Bytes
  fault : Option Fault
deriving DecidableEq, Repr

namespace Encoding

/-- Bytes that are written without fault. -/
def ofBytes (bytes : Bytes) : Encoding := ⟨bytes, none⟩

/-- Nothing is written. -/
def empty : Encoding := ofBytes []

/-- Nothing is written because of a fault. -/
def stop (fault : Fault) : Encoding := ⟨[], some fault⟩

/-- The first encoding, then the second unless the first has a fault. -/
def append (a b : Encoding) : Encoding :=
  match a.fault with
  | some fault => ⟨a.bytes, some fault⟩
  | none => ⟨a.bytes ++ b.bytes, b.fault⟩

instance : Append Encoding := ⟨append⟩

/-- The encodings of the elements, one after another. -/
def each (encode : α → Encoding) (values : List α) : Encoding :=
  values.foldr (fun value rest => encode value ++ rest) empty

/-- The bytes, if all of them could be written. -/
def result (e : Encoding) : Except Fault Bytes :=
  match e.fault with
  | some fault => .error fault
  | none => .ok e.bytes

@[simp] theorem ofBytes_append_ofBytes (a b : Bytes) :
    ofBytes a ++ ofBytes b = ofBytes (a ++ b) := rfl

@[simp] theorem empty_append (e : Encoding) : empty ++ e = e := by
  show append empty e = e
  simp [append, empty, ofBytes]

@[simp] theorem append_empty (e : Encoding) : e ++ empty = e := by
  show append e empty = e
  rcases e with ⟨bytes, _ | fault⟩ <;> simp [append, empty, ofBytes]

theorem append_assoc (a b c : Encoding) : a ++ b ++ c = a ++ (b ++ c) := by
  show append (append a b) c = append a (append b c)
  rcases a with ⟨as, _ | fa⟩ <;> rcases b with ⟨bs, _ | fb⟩ <;> simp [append]

/-! ## Integers of a fixed width -/

/-- The `width` low bytes of `n`, the least significant first. -/
def littleEndian : Nat → Nat → Bytes
  | 0, _ => []
  | width + 1, n => UInt8.ofNat n :: littleEndian width (n / 256)

/-- One byte. -/
def byte (b : UInt8) : Encoding := ofBytes [b]

/-- A truth value as the byte 1 or 0. -/
def bool (b : Bool) : Encoding := byte (if b then 1 else 0)

/-- Two bytes, the low one first. -/
def u16 (n : UInt16) : Encoding := ofBytes (littleEndian 2 n.toNat)

/-- Four bytes, the low one first. -/
def u32 (n : UInt32) : Encoding := ofBytes (littleEndian 4 n.toNat)

/-- Eight bytes, the low one first. -/
def u64 (n : UInt64) : Encoding := ofBytes (littleEndian 8 n.toNat)

/-- A signed integer as the unsigned one with the same bits. -/
def i32 (n : Int32) : Encoding := u32 n.toUInt32

/-- A signed integer as the unsigned one with the same bits. -/
def i64 (n : Int64) : Encoding := u64 n.toUInt64

/-- A token as its value. -/
def token (t : Token) : Encoding := u32 t.value

/-- A token that may be missing; the null token stands for none. -/
def token? (t : Option Token) : Encoding := token (t.getD .null)

/-! ## Integers of a variable width -/

/-- The compressed form of one, two or four bytes; it holds 29 bits. -/
def compressed (n : UInt32) : Encoding :=
  if n ≤ 0x7F then byte n.toUInt8
  else if n ≤ 0x3FFF then ofBytes [(n >>> 8).toUInt8 ||| 0x80, n.toUInt8]
  else if n ≤ 0x1FFFFFFF then
    ofBytes [(n >>> 24).toUInt8 ||| 0xC0, (n >>> 16).toUInt8, (n >>> 8).toUInt8, n.toUInt8]
  else stop (.malformed (.compressedRange n))

/-- Groups of seven bits, the low group first; the high bit of a byte tells that more follow. -/
def sevenBit (n : UInt32) : Bytes :=
  if n < 0x80 then [n.toUInt8]
  else (n.toUInt8 ||| 0x80) :: sevenBit (n >>> 7)
termination_by n.toNat
decreasing_by
  rename_i h
  have hn : ¬ n.toNat < 128 := fun lt => h (UInt32.lt_iff_toNat_lt.2 (by simpa using lt))
  simp only [UInt32.toNat_shiftRight, UInt32.reduceToNat, Nat.shiftRight_eq_div_pow, Nat.reduceMod,
    Nat.reducePow]
  omega

/-- The number of elements of a list. -/
def count (n : Nat) : Encoding :=
  if n < UInt32.size then compressed (UInt32.ofNat n) else stop (.malformed (.countRange n))

/-! ## Strings of bytes and texts -/

/-- Bytes after their number. -/
def blob (bytes : Bytes) : Encoding :=
  ofBytes (sevenBit (UInt32.ofNat bytes.length) ++ bytes)

/-- The UTF-8 bytes of a text after their number. -/
def text (s : String) : Encoding := blob (Utf8.encode s)

/-- A list as the number of its elements and then each of them. -/
def list (encode : α → Encoding) (values : List α) : Encoding :=
  count values.length ++ each encode values

/-! ## Writing into written bytes -/

/-- The bytes with those from `offset` on replaced, or nothing if they do not reach that far. -/
def overwrite? (bytes : Bytes) (offset : Nat) (patch : Bytes) : Option Bytes :=
  if offset + patch.length ≤ bytes.length then
    some (bytes.take offset ++ patch ++ bytes.drop (offset + patch.length))
  else none

end Encoding

end ModuleLinker
