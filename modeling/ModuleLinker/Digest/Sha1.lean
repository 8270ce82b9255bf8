import ModuleLinker.Text.Utf8

namespace ModuleLinker

/-! # SHA-1

The 20 byte digest of a byte sequence. Public key tokens, module version ids and signatures are
taken from it.
-/

namespace Sha1

/-- The five words that a block changes. -/
structure State where
  a : UInt32
  b : UInt32
  c : UInt32
  d : UInt32
  e : UInt32

/-- The words before the first block. -/
def initial : State :=
  ⟨0x67452301, 0xEFCDAB89, 0x98BADCFE, 0x10325476, 0xC3D2E1F0⟩

/-- The word turned left by `n` bits, `n` between 1 and 31. -/
def rotate (w : UInt32) (n : UInt32) : UInt32 :=
  (w <<< n) ||| (w >>> (32 - n))

/-- The bytes of a word, the most significant first. -/
def wordBytes (w : UInt32) : Bytes :=
  [(w >>> 24).toUInt8, (w >>> 16).toUInt8, (w >>> 8).toUInt8, w.toUInt8]

/-- The words that the bytes spell, four bytes each. -/
def words : Bytes → List UInt32
  | b0 :: b1 :: b2 :: b3 :: rest =>
    ((b0.toUInt32 <<< 24) ||| (b1.toUInt32 <<< 16) ||| (b2.toUInt32 <<< 8) ||| b3.toUInt32)
      :: words rest
  | _ => []

/-- The message with the marker bit, zeros and its length in bits, a multiple of 64 bytes. -/
def padded (message : Bytes) : Bytes :=
  let bits := UInt64.ofNat (8 * message.length)
  -- the marker byte, the zeros and the eight bytes of the length fill the last block
  message ++ [(0x80 : UInt8)] ++ List.replicate ((119 - message.length % 64) % 64) (0 : UInt8) ++
    wordBytes (bits >>> 32).toUInt32 ++ wordBytes bits.toUInt32

/-- `n` more words of the schedule, which is held in reverse. -/
def extendSchedule : Nat → List UInt32 → List UInt32
  | 0, schedule => schedule
  | n + 1, schedule =>
    let word i := schedule.getD i 0
    -- in reverse, the words 3, 8, 14 and 16 places back are at 2, 7, 13 and 15
    extendSchedule n (rotate (word 2 ^^^ word 7 ^^^ word 13 ^^^ word 15) 1 :: schedule)

/-- The mixing function and the constant of round `t`. -/
def roundMix (t : Nat) (b c d : UInt32) : UInt32 :=
  if t < 20 then ((b &&& c) ||| (~~~b &&& d)) + 0x5A827999
  else if t < 40 then (b ^^^ c ^^^ d) + 0x6ED9EBA1
  else if t < 60 then ((b &&& c) ||| (b &&& d) ||| (c &&& d)) + 0x8F1BBCDC
  else (b ^^^ c ^^^ d) + 0xCA62C1D6

/-- Runs the rounds from `t` on, one for each word. -/
def rounds : Nat → List UInt32 → State → State
  | _, [], s => s
  | t, w :: rest, s =>
    let next := rotate s.a 5 + roundMix t s.b s.c s.d + s.e + w
    rounds (t + 1) rest ⟨next, s.a, rotate s.b 30, s.c, s.d⟩

/-- Takes a block of 16 words into the state. -/
def absorb (s : State) (block : List UInt32) : State :=
  let r := rounds 0 (extendSchedule 64 block.reverse).reverse s
  ⟨s.a + r.a, s.b + r.b, s.c + r.c, s.d + r.d, s.e + r.e⟩

/-- Takes `n` blocks into the state. -/
def absorbBlocks : Nat → List UInt32 → State → State
  | 0, _, s => s
  | n + 1, ws, s => absorbBlocks n (ws.drop 16) (absorb s (ws.take 16))

/-- The digest of a message, 20 bytes. -/
def digest (message : Bytes) : Bytes :=
  let ws := words (padded message)
  let s := absorbBlocks (ws.length / 16) ws initial
  wordBytes s.a ++ wordBytes s.b ++ wordBytes s.c ++ wordBytes s.d ++ wordBytes s.e

end Sha1

end ModuleLinker
