import ModuleLinker.Bytes.Encoding
import ModuleLinker.Bytes.Reader
import ModuleLinker.Digest.Sha1

namespace ModuleLinker

/-! # Strong names

A module is strong named by a public key. The last eight bytes of the key's digest, its token,
stand for the key in references.
-/

/-- A public key, or the token of one. -/
inductive StrongName where
  | publicKey (key : Bytes)
  | token (value : UInt64)
deriving DecidableEq, Repr

namespace StrongName

/-- The number of the digest algorithm SHA-1, from which tokens are taken. -/
def sha1 : UInt32 := 0x8004

/-- The strong name held in `data`: a whole public key, or the eight bytes of a token. -/
def ofBytes (data : Bytes) (isKey : Bool) : Except Fault StrongName :=
  if isKey then .ok (.publicKey data) else return .token (← Reader.u64.run data)

/-- The token of a public key. -/
def keyToken (key : Bytes) : UInt64 :=
  UInt64.ofNat (Reader.littleEndian ((Sha1.digest key).drop 12))

/-- The token under a digest algorithm; a strong name that is a token already needs none. -/
def tokenBy (algorithm : UInt32) : StrongName → Except Fault UInt64
  | .publicKey key =>
    if algorithm = sha1 then .ok (keyToken key)
    else .error (.misconfigured (.hashAlgorithm algorithm))
  | .token value => .ok value

/-- The token that references use. -/
def tokenValue : StrongName → UInt64
  | .publicKey key => keyToken key
  | .token value => value

/-- The public key, if the strong name carries it. -/
def key? : StrongName → Option Bytes
  | .publicKey key => some key
  | .token _ => none

/-- A token as text: its bytes in hexadecimal, the low one first. -/
def tokenText (value : UInt64) : String :=
  String.join ((Encoding.littleEndian 8 value.toNat).map fun b => Numeral.hex 2 b.toNat)

/-- Reads a token from the two-digit numerals of its bytes, the low one first. -/
def parseTokenBytes (whole : String) : List Char → Except Fault Bytes
  | high :: low :: rest =>
    match Numeral.read 16 0xFF [high, low] with
    | .error fault => .error (.malformed (.keyTokenDigits whole fault))
    | .ok n => return UInt8.ofNat n :: (← parseTokenBytes whole rest)
  | _ => .ok []

/-- Reads a token from sixteen hexadecimal digits. -/
def parseToken (s : String) : Except Fault UInt64 :=
  if s.utf8ByteSize ≠ 16 ∨ s.toList.any (fun c => decide (0x80 ≤ c.toNat)) then
    .error (.malformed (.keyTokenLength s))
  else return UInt64.ofNat (Reader.littleEndian (← parseTokenBytes s s.toList))

end StrongName

end ModuleLinker
