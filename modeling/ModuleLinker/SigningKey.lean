import ModuleLinker.FileSystem.Journal
import ModuleLinker.Identity.StrongName
import ModuleLinker.Policy

namespace ModuleLinker

/-! # Signing keys

A key file holds a pair of keys, or a public key alone in one of two forms. A signature is as long
as the modulus of the key and is expanded from the digest of the image and the private part.
-/

/-- A key for signing images. -/
structure SigningKey where
  /-- The number of bits of the modulus. -/
  bits : UInt32
  exponent : UInt32
  modulus : Bytes
  /-- The private part, if the key has one. -/
  secret : Option Bytes
deriving DecidableEq, Repr

namespace SigningKey

/-- The first byte of a pair of keys. -/
def pairTag : UInt8 := 0x07

/-- The first byte of a public key. -/
def publicTag : UInt8 := 0x06

/-- The number of the signing algorithm. -/
def algorithm : UInt32 := 0x2400

/-- The mark of a public key. -/
def publicMark : UInt32 := 0x31415352

/-- The mark of a pair of keys. -/
def pairMark : UInt32 := 0x32415352

/-- The length of the header before a public key in an identity. -/
def headerLength : Nat := 12

/-! ## Reading -/

open Reader in
/-- Reads a key with a mark; behind the mark of a pair everything that is left is private. -/
def keyReader (mark : UInt32) : Reader SigningKey := do
  let tag ← byte
  skip 3
  let foundAlgorithm ← u32
  if foundAlgorithm != algorithm then refuse (.keyAlgorithm foundAlgorithm tag)
  let foundMark ← u32
  if foundMark != mark then refuse (.keyMagic foundMark)
  let bits ← u32
  if bits == 0 || bits % 8 != 0 then refuse (.keyLength bits.toNat)
  let exponent ← u32
  let modulus ← bytes (bits.toNat / 8)
  if mark != pairMark then return ⟨bits, exponent, modulus, none⟩
  return ⟨bits, exponent, modulus, some (← bytes (← remaining))⟩

open Reader in
/-- Reads a public key behind its header. -/
def headedReader : Reader SigningKey := do
  skip 4
  let hash ← u32
  let size ← u32
  if hash != StrongName.sha1 then refuse (.keyHash hash)
  -- the size counts all that comes behind the header
  let actual ← remaining
  if size.toNat != actual then refuse (.keySize size.toNat actual)
  keyReader publicMark

/-- Reads the contents of a key file. -/
def parse (data : Bytes) : Except Fault SigningKey :=
  match data.head? with
  | none => .error (.malformed .keyTooShort)
  | some tag =>
    if tag = pairTag then (keyReader pairMark).run data
    else if tag = publicTag then (keyReader publicMark).run data
    else if headerLength < data.length then headedReader.run data
    else .error (.malformed .keyTooShort)

/-! ## Using -/

/-- The public key, with its header, as identities carry it. -/
def publicKey (k : SigningKey) : Bytes :=
  let inner := Encoding.byte publicTag ++ .byte 0x02 ++ .u16 0 ++ .u32 algorithm ++ .u32 publicMark
    ++ .u32 k.bits ++ .u32 k.exponent ++ .ofBytes k.modulus
  let length := UInt32.ofNat inner.bytes.length
  (Encoding.u32 algorithm ++ .u32 StrongName.sha1 ++ .u32 length ++ inner).bytes

/-- The number of bytes of a signature. -/
def signatureLength (k : SigningKey) : Nat := k.bits.toNat / 8

/-- Whether the key can sign. -/
def canSign (k : SigningKey) : Bool := k.secret.isSome

/-- The first `length` bytes of the digests of the private part, the digest of the image and a
counter. -/
def expand (secret image : Bytes) (length : Nat) : Bytes :=
  let digest := Sha1.digest image
  -- a digest has 20 bytes, so one block for every 20 bytes that are asked for
  let block := fun counter => Sha1.digest (secret ++ digest ++ Encoding.littleEndian 4 counter)
  ((List.range ((length + 19) / 20)).flatMap block).take length

/-- The signature of an image; `path` is the key's file. -/
def sign (k : SigningKey) (path : Path) (image : Bytes) : Except Fault Bytes :=
  match k.secret with
  | none => .error (.unsignable path.text)
  | some secret => .ok (expand secret image k.signatureLength)

end SigningKey

/-! ## Key files -/

/-- A key and the file that it comes from. -/
structure Signer where
  path : Path
  key : SigningKey
deriving DecidableEq, Repr

namespace Signer

/-- The signer with the contents of a key file. -/
def ofBytes (path : Path) (data : Bytes) : Except Fault Signer :=
  match SigningKey.parse data with
  | .ok key => .ok ⟨path, key⟩
  | .error cause => .error (.invalidKey path.text cause)

/-- The signer of a key file. -/
def ofFile (fs : FileSystem) (path : Path) : Except Fault Signer :=
  match fs.load path with
  | .ok data => ofBytes path data
  | .error cause => .error (.unreadableKey path.text cause)

/-- The signer of a key container, which is a key file in one of the directories. -/
def ofContainer (fs : FileSystem) (name : String) (directories : List Path) :
    Except Fault Signer :=
  let candidates := directories.map fun directory => directory.join ⟨name ++ ".snk"⟩
  match candidates.find? fs.isFile with
  | some path => ofFile fs path
  | none => .error (.misconfigured (.keyContainer name))

/-- The signature of an image. -/
def sign (s : Signer) (image : Bytes) : Except Fault Bytes := s.key.sign s.path image

/-- The signer that the options ask for, found but not yet tested. -/
def find (fs : FileSystem) (p : Policy) : Except Fault (Option Signer) :=
  match p.options.keyFile, p.options.keyContainer with
  | some path, _ => (ofFile fs (p.resolve path)).map some
  | none, some name => (ofContainer fs name p.searchDirectories).map some
  | none, none => .ok none

/-- The signer that the options ask for. A key without private part is of use only if the signature
is left for later. -/
def load (fs : FileSystem) (p : Policy) : Merging (Option Signer) := do
  match ← Merging.ofExcept (find (← Logging.files fs) p) with
  | some signer =>
    if !signer.key.canSign && !p.options.delaySign then throw (.misconfigured .publicKeyOnly)
    return some signer
  | none =>
    if p.options.delaySign then
      Logging.warn "DelaySign is ignored because no key file or key container is set"
    return none

end Signer

end ModuleLinker
