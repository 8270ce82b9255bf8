import ModuleLinker.Fault

namespace ModuleLinker

/-! # Reading bytes

A reader takes bytes off the front of the unread data. Bytes that it took before it failed stay
taken, and the cursor counts them, so that faults can name offsets into the whole data.
-/

/-- The unread bytes and the number of bytes read before them. -/
structure Cursor where
  rest : Bytes
  position : Nat
deriving DecidableEq, Repr

/-- A computation that reads from a cursor and may fail. -/
abbrev Reader := ExceptT Fault (StateM Cursor)

namespace Cursor

/-- The cursor before the first byte of `data`. -/
def start (data : Bytes) : Cursor := ⟨data, 0⟩

end Cursor

namespace Reader

/-- Runs a reader at a cursor; the answer comes with the cursor after it. -/
def runAt (r : Reader α) (c : Cursor) : Except Fault α × Cursor :=
  StateT.run (ExceptT.run r) c

/-- What the reader makes of `data`. -/
def run (r : Reader α) (data : Bytes) : Except Fault α :=
  (r.runAt (.start data)).1

/-- Gives up because of a malformation. -/
def refuse (cause : Malformation) : Reader α := throw (.malformed cause)

/-- The number of bytes read so far. -/
def position : Reader Nat := return (← get).position

/-- The number of unread bytes. -/
def remaining : Reader Nat := return (← get).rest.length

/-- The next `n` bytes; where fewer are left nothing is read. -/
def bytes (n : Nat) : Reader Bytes := do
  let c ← get
  if n ≤ c.rest.length then
    set (Cursor.mk (c.rest.drop n) (c.position + n))
    return c.rest.take n
  else throw .outOfBounds

/-- Passes over `n` bytes. -/
def skip (n : Nat) : Reader Unit := do
  let _ ← bytes n

/-- The next byte. -/
def byte : Reader UInt8 := do
  match (← get).rest with
  | [] => throw .outOfBounds
  | b :: rest =>
    modify fun c => ⟨rest, c.position + 1⟩
    return b

/-- `n` values of the same kind. -/
def times (r : Reader α) : Nat → Reader (List α)
  | 0 => return []
  | n + 1 => do
    let head ← r
    let tail ← times r n
    return head :: tail

/-! ## Integers of a fixed width -/

/-- The number that bytes spell, the least significant first. -/
def littleEndian : Bytes → Nat
  | [] => 0
  | b :: rest => b.toNat + 256 * littleEndian rest

/-- Two bytes, the low one first. -/
def u16 : Reader UInt16 := return UInt16.ofNat (littleEndian (← bytes 2))

/-- Four bytes, the low one first. -/
def u32 : Reader UInt32 := return UInt32.ofNat (littleEndian (← bytes 4))

/-- Eight bytes, the low one first. -/
def u64 : Reader UInt64 := return UInt64.ofNat (littleEndian (← bytes 8))

/-- Four bytes as a signed number. -/
def i32 : Reader Int32 := return (← u32).toInt32

/-- Eight bytes as a signed number. -/
def i64 : Reader Int64 := return (← u64).toInt64

/-- A byte as a truth value; every byte but 0 is true. -/
def bool : Reader Bool := return (← byte) != 0

/-- A token by its value. -/
def token : Reader Token := return ⟨← u32⟩

/-- A token that may be missing: the null token is none. -/
def token? : Reader (Option Token) := do
  let t ← token
  return if t.isNull then none else some t

/-! ## Integers of a variable width -/

/-- A compressed integer of one, two or four bytes. -/
def compressed : Reader UInt32 := do
  let lead ← byte
  if lead &&& 0x80 = 0 then return lead.toUInt32
  if lead &&& 0xC0 = 0x80 then
    let low ← byte
    return ((lead.toUInt32 &&& 0x3F) <<< 8) ||| low.toUInt32
  if lead &&& 0xE0 = 0xC0 then
    let b1 ← byte
    let b2 ← byte
    let b3 ← byte
    return ((lead.toUInt32 &&& 0x1F) <<< 24) ||| (b1.toUInt32 <<< 16) ||| (b2.toUInt32 <<< 8)
      ||| b3.toUInt32
  refuse (.compressedLead lead)

/-- Up to `groups` more groups of seven bits; those before it gave `value` and `shift` bits. -/
def sevenBitGroups : Nat → Nat → UInt32 → Reader UInt32
  | 0, shift, _ => refuse (.sevenBitOverflow shift)
  | groups + 1, shift, value => do
    let b ← byte
    -- the fifth group is shifted by 28, so three of its bits fall off the word
    let value := value ||| ((b &&& 0x7F).toUInt32 <<< UInt32.ofNat shift)
    if b &&& 0x80 = 0 then return value
    sevenBitGroups groups (shift + 7) value

/-- An integer in groups of seven bits, at most five of them; bits above the 32nd are lost. -/
def sevenBit : Reader UInt32 := sevenBitGroups 5 0 0

/-- The number of elements of a list. An element takes at least one byte, so a number above the
number of unread bytes is refused. -/
def count : Reader Nat := do
  let n := (← compressed).toNat
  let left ← remaining
  if left < n then refuse (.countExceedsData n left (← position))
  return n

/-! ## Strings of bytes and texts -/

/-- Bytes after their number. -/
def blob : Reader Bytes := do bytes (← sevenBit).toNat

/-- A text in UTF-8 after the number of its bytes. -/
def text : Reader String := do
  let spelled ← blob
  match Utf8.decode spelled with
  | .ok s => return s
  | .error fault =>
    -- the cursor is behind the text, whose first byte lies its length before
    let stop ← position
    refuse (.notUtf8 (stop - spelled.length) stop fault)

/-- A list as the number of its elements and then each of them. -/
def list (element : Reader α) : Reader (List α) := do times element (← count)

end Reader

end ModuleLinker
