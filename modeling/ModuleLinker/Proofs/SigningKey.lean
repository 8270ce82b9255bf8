import ModuleLinker.Proofs.Emission

namespace ModuleLinker

/-! # Keys and signatures

A key that is read has a modulus of the size that it says. So its public key is well-formed: it is read as a
strong-name public key, and nothing but the private part is missing. Signatures are cut to the same size, and
so is the room that is made for them.
-/

namespace SigningKey

variable {k : SigningKey}

/-! ## Keys that are read -/

/-- The modulus is as long as the key says, in whole bytes, and not empty. -/
structure Sized (k : SigningKey) : Prop where
  bits_ne : k.bits ≠ 0
  bits_mod : k.bits % 8 = 0
  length_modulus : k.modulus.length = k.signatureLength

section

open Reader

theorem takes_skip (n : Nat) : (skip n).Takes fun _ _ => True :=
  (takes_bytes n).bind fun _ _ _ => .pure trivial

/-- A key that is read under a mark is sized. -/
theorem takes_keyReader (mark : UInt32) : (keyReader mark).Takes fun k _ => k.Sized := by
  unfold keyReader
  refine takes_byte.bind fun tag _ _ => (takes_skip 3).bind fun _ _ _ => takes_u32.bind fun found _ _ => ?_
  dsimp only
  split
  case isTrue => exact .refused .refuse
  refine takes_u32.bind fun foundMark _ _ => ?_
  split
  case isTrue => exact .refused .refuse
  refine takes_u32.bind fun bits _ _ => ?_
  split
  case isTrue => exact .refused .refuse
  rename_i hbits
  simp only [Bool.or_eq_true, beq_iff_eq, bne_iff_ne, ne_eq, not_or, not_not] at hbits
  refine takes_u32.bind fun exponent _ _ => (takes_bytes _).bind fun modulus _ hmodulus => ?_
  have hsized (secret : Option Bytes) : Sized ⟨bits, exponent, modulus, secret⟩ :=
    ⟨hbits.1, hbits.2, hmodulus.1⟩
  split
  · exact .pure (hsized none)
  · exact takes_remaining.bind fun _ _ _ => (takes_bytes _).bind fun secret _ _ => .pure (hsized (some secret))

theorem takes_headedReader : headedReader.Takes fun k _ => k.Sized := by
  unfold headedReader
  refine (takes_skip 4).bind fun _ _ _ => takes_u32.bind fun hash _ _ => takes_u32.bind fun size _ _ => ?_
  dsimp only
  split
  case isTrue => exact .refused .refuse
  refine takes_remaining.bind fun actual _ _ => ?_
  split
  case isTrue => exact .refused .refuse
  exact takes_keyReader publicMark

end

/-- Every key that is read is sized, whichever of the three forms it has. -/
theorem sized_of_parse {data : Bytes} (h : parse data = .ok k) : k.Sized := by
  have hsized {r : Reader SigningKey} (hr : r.Takes fun k _ => k.Sized) (h : r.run data = .ok k) : k.Sized := by
    obtain ⟨c, hrun⟩ := Reader.runAt_of_run h
    obtain ⟨-, -, hk⟩ := hr _ _ _ hrun
    exact hk
  unfold parse at h
  split at h
  · exact nomatch h
  split_ifs at h
  · exact hsized (takes_keyReader pairMark) h
  · exact hsized (takes_keyReader publicMark) h
  · exact hsized takes_headedReader h

/-! ## Public keys -/

open Encoding in
/-- The public key behind its header. -/
def inner (k : SigningKey) : Encoding :=
  byte publicTag ++ ((byte 0x02 ++ u16 0) ++ (u32 algorithm ++ (u32 publicMark ++ (u32 k.bits ++
    (u32 k.exponent ++ ofBytes k.modulus)))))

open Encoding in
theorem publicKey_eq (k : SigningKey) : k.publicKey = (u32 algorithm ++ (u32 StrongName.sha1 ++
    (u32 (UInt32.ofNat k.inner.bytes.length) ++ k.inner))).bytes := by
  unfold publicKey inner
  simp only [append_assoc]

theorem length_inner (k : SigningKey) : k.inner.bytes.length = 20 + k.modulus.length := by
  unfold inner
  -- six parts of fixed widths, and the modulus
  repeat rw [Encoding.length_append rfl]
  show 1 + (1 + 2 + (4 + (4 + (4 + (4 + k.modulus.length))))) = 20 + k.modulus.length
  omega

theorem signatureLength_lt (k : SigningKey) : k.signatureLength < 2 ^ 29 := by
  have hbits := k.bits.toNat_lt
  unfold signatureLength
  omega

theorem Sized.fits_inner (h : k.Sized) : k.inner.Fits := by
  refine ⟨rfl, ?_⟩
  have hlength := k.signatureLength_lt
  have hsize : UInt32.size = 2 ^ 32 := rfl
  rw [length_inner, h.length_modulus]
  omega

/-- The public key is read again behind its header, without its private part. -/
theorem Sized.readsBack_inner (h : k.Sized) :
    k.inner.ReadsBack (keyReader publicMark) { k with secret := none } := by
  have hskip : (Encoding.byte 0x02 ++ Encoding.u16 0).ReadsBack (Reader.skip 3) () :=
    (Encoding.readsBack_bytes [0x02, 0, 0]).last rfl
  have hmodulus : (Encoding.ofBytes k.modulus).ReadsBack (Reader.bytes (k.bits.toNat / 8)) k.modulus := by
    have hlength : k.modulus.length = k.bits.toNat / 8 := h.length_modulus
    exact hlength ▸ Encoding.readsBack_bytes k.modulus
  have hbits : ¬ (k.bits == 0 || k.bits % 8 != 0) = true := by
    simp [h.bits_ne, h.bits_mod]
  unfold inner keyReader
  refine (Encoding.readsBack_byte _).bind (hskip.bind ((Encoding.readsBack_u32 _).bind ?_))
  dsimp only
  rw [if_neg (by decide)]
  refine (Encoding.readsBack_u32 _).bind ?_
  rw [if_neg (by decide)]
  refine (Encoding.readsBack_u32 _).bind ?_
  rw [if_neg hbits]
  exact (Encoding.readsBack_u32 _).bind (hmodulus.last rfl)

/-- The size in the header is that of what stands behind it. -/
theorem Sized.headedReader_run (h : k.Sized) : headedReader.run k.publicKey = .ok { k with secret := none } := by
  have hsize : (UInt32.ofNat k.inner.bytes.length).toNat = k.inner.bytes.length := by
    rw [UInt32.toNat_ofNat', Nat.mod_eq_of_lt h.fits_inner.length_lt]
  have hskip : (Encoding.u32 algorithm).ReadsBack (Reader.skip 4) () :=
    (Encoding.readsBack_bytes (Encoding.littleEndian 4 algorithm.toNat)).last rfl
  have hword (n : UInt32) : (Encoding.u32 n).Fits := ⟨rfl, show 4 < UInt32.size by decide⟩
  have hinner := h.readsBack_inner h.fits_inner []
  rw [List.append_nil] at hinner
  unfold headedReader Reader.run Cursor.start
  rw [publicKey_eq, Encoding.bytes_append rfl, Reader.runAt_bind_of_ok (hskip (hword _) _ _),
    Encoding.bytes_append rfl, Reader.runAt_bind_of_ok (Encoding.readsBack_u32 _ (hword _) _ _),
    Encoding.bytes_append rfl, Reader.runAt_bind_of_ok (Encoding.readsBack_u32 _ (hword _) _ _)]
  dsimp only
  rw [if_neg (by decide), Reader.runAt_bind_of_ok (Reader.remaining_runAt _), hsize,
    if_neg (by simp), hinner]

/-- The public key of a sized key is a strong-name public key, and read as one. -/
theorem Sized.parse_publicKey (h : k.Sized) : parse k.publicKey = .ok { k with secret := none } := by
  -- the number of the algorithm comes first, which starts with a zero
  have hhead : k.publicKey.head? = some 0 := by
    rw [publicKey_eq, Encoding.bytes_append rfl]
    rfl
  have hlong : headerLength < k.publicKey.length := by
    rw [publicKey_eq, Encoding.length_append rfl, Encoding.length_append rfl, Encoding.length_append rfl,
      length_inner]
    show 12 < 4 + (4 + (4 + (20 + k.modulus.length)))
    omega
  unfold parse
  rw [hhead]
  dsimp only
  rw [if_neg (by decide), if_neg (by decide), if_pos hlong, h.headedReader_run]

/-! ## Signatures -/

/-- As many blocks are made as the signature needs, and what is too much is cut off. -/
theorem length_expand (secret image : Bytes) (length : Nat) : (expand secret image length).length = length := by
  have hblocks (counters : List Nat) (block : Nat → Bytes) (hblock : ∀ n, (block n).length = 20) :
      (counters.flatMap block).length = 20 * counters.length := by
    simp [List.length_flatMap, hblock, Nat.mul_comm]
  unfold expand
  rw [List.length_take, hblocks _ _ fun _ => Sha1.length_digest _, List.length_range]
  omega

theorem sign_eq {secret : Bytes} (h : k.secret = some secret) (path : Path) (image : Bytes) :
    k.sign path image = .ok (expand secret image k.signatureLength) := by
  rw [sign, h]

end SigningKey

namespace Emission

open Image

variable {p : Policy} {signer : Signer} {m : Module} {log : Log} {fault : Fault}

/-- A signature is written if it is as long as its room. -/
theorem writeSignature_of_sign {room signature : Bytes} (hroom : m.signature = some room) {offset : Nat}
    (hslot : (framed m).signatureSlot = some (offset, room.length))
    (hsign : signer.sign (framed m).bytes = .ok signature) (hlength : signature.length = room.length) :
    writeSignature signer ⟨m, (framed m).bytes⟩ offset room.length = .ok ⟨{ m with signature := some signature },
      (framed { m with signature := some signature }).bytes⟩ := by
  have hpatch := overwrite?_signature hroom hslot hlength
  rw [writeSignature, hsign]
  simp only [bind, Except.bind, hlength, ne_eq, not_true_eq_false, if_false, patch, hpatch]
  rfl

/-- With room of the size of its signatures, a key that can sign stops no module from being written. -/
theorem encode_eq_error_iff {secret : Bytes} (hsecret : signer.key.secret = some secret)
    (hroom : m.signature.map List.length = some signer.key.signatureLength) :
    ((encode p (some signer) m).run.run log).1 = .error fault ↔ ofModule (blank m) = .error fault := by
  rcases hwrite : ofModule (blank m) with cause | image
  · have hencode : ((encode p (some signer) m).run.run log).1 = .error cause := by
      rw [encode, hwrite]
      rfl
    rw [hencode, Except.error.injEq, Except.error.injEq]
  · refine iff_of_false (fun h => ?_) (fun h => by cases h)
    have hblank := blank_signature_of_eq_replicate hroom
    obtain ⟨offset, hslot, -⟩ := slice_signature hblank
    rw [encode_of_fits (ofModule_eq_ok_iff.1 hwrite).1, hslot, List.length_replicate] at h
    dsimp only at h
    split at h
    · cases h
    · rename_i hdelay
      have hsigned := writeSignature_of_sign (m := unsigned m) hblank hslot
        (SigningKey.sign_eq hsecret signer.path _)
        ((SigningKey.length_expand _ _ _).trans (List.length_replicate ..).symm)
      rw [List.length_replicate] at hsigned
      rw [hsigned] at h
      cases h

end Emission

namespace SigningKey

open Emission in
/-- The public key of a key that was read, in whichever form, is a strong-name public key: reading it gives the
same size, exponent and modulus without a private part, and the public key of that is the same again. With a
private part every image gets a signature, which has the size of the key. Where a module has room of this size
for it, as every finished module has, nothing but the module itself can stop it from being written. -/
theorem publicKey_valid {data : Bytes} {k : SigningKey} (h : parse data = .ok k) :
    (∃ k', parse k.publicKey = .ok k' ∧ k'.bits = k.bits ∧ k'.exponent = k.exponent ∧ k'.modulus = k.modulus ∧
      k'.secret = none ∧ k'.publicKey = k.publicKey) ∧
    ∀ secret, k.secret = some secret →
      (∀ path image, ∃ signature, k.sign path image = .ok signature ∧ signature.length = k.signatureLength) ∧
      (∀ path p set merged m, finish set p (some ⟨path, k⟩) merged = .ok m →
        m.signature.map List.length = some k.signatureLength) ∧
      ∀ path p m log fault, m.signature.map List.length = some k.signatureLength →
        (((encode p (some ⟨path, k⟩) m).run.run log).1 = .error fault ↔
          Image.ofModule (blank m) = .error fault) := by
  refine ⟨⟨_, (sized_of_parse h).parse_publicKey, rfl, rfl, rfl, rfl, rfl⟩, fun secret hsecret => ⟨?_, ?_, ?_⟩⟩
  · intro path image
    exact ⟨_, sign_eq hsecret path image, length_expand ..⟩
  · intro path p set merged m hfinish
    exact room_of_finish hfinish
  · intro path p m log fault hroom
    exact encode_eq_error_iff hsecret hroom

open Emission

/-- The key file of a key for signatures of eight bytes. -/
def shortKeyFile : Bytes :=
  [0x07, 0x02, 0x00, 0x00, 0x00, 0x24, 0x00, 0x00, 0x52, 0x53, 0x41, 0x32, 0x40, 0x00, 0x00, 0x00,
    0x01, 0x00, 0x01, 0x00, 0xC3, 0x5A, 0x17, 0x88, 0x21, 0x4E, 0x90, 0xD1, 1, 2, 3, 4]

theorem publicKey_valid_shortKey :
    parse shortKeyFile = .ok shortKey.key ∧
    (∃ k', parse shortKey.key.publicKey = .ok k' ∧ k'.secret = none ∧ k'.publicKey = shortKey.key.publicKey) ∧
    (∃ signature, shortKey.key.sign shortKey.path [1, 2, 3] = .ok signature ∧ signature.length = 8) ∧
    signedBox.signature.map List.length = some 8 ∧
    ∀ log fault, ((encode signingPolicy (some shortKey) signedBox).run.run log).1 = .error fault ↔
      Image.ofModule (blank signedBox) = .error fault := by
  have hparse : parse shortKeyFile = .ok shortKey.key := by decide +kernel
  have hfinish : finish Relocation.boxes signingPolicy (some shortKey)
      (Relocation.boxModule "first" (some ⟨0x06000001⟩)) = .ok signedBox := rfl
  obtain ⟨⟨k', hk', -, -, -, hnone, hsame⟩, hsecret⟩ := publicKey_valid hparse
  obtain ⟨hsign, hroom, hencode⟩ := hsecret [1, 2, 3, 4] rfl
  have hsized := hroom shortKey.path signingPolicy _ _ _ hfinish
  exact ⟨hparse, ⟨k', hk', hnone, hsame⟩, hsign shortKey.path [1, 2, 3], hsized,
    fun log fault => hencode shortKey.path signingPolicy signedBox log fault hsized⟩

end SigningKey

end ModuleLinker
