import ModuleLinker.Emission
import ModuleLinker.Proofs.Image.Places
import ModuleLinker.Proofs.Logging
import ModuleLinker.Proofs.Relocation.Output

namespace ModuleLinker

/-! # Sealed images

An image is written three times: with a blank id and a blank signature, then with the id, and last
with the signature. Each of them is what the writer makes of the module as it is by then. So the
digest that becomes the id covers all but the two places, the signature covers all but its own, and
neither depends on what stood there before.
-/

/-! ## Digests -/

namespace Sha1

theorem length_digest (message : Bytes) : (digest message).length = 20 := by
  simp [digest, wordBytes]

end Sha1

namespace Mvid

/-- A version id is made of the first bytes of something long enough. -/
theorem bytes_ofBytes {bytes : Bytes} (h : 16 ≤ bytes.length) : (ofBytes bytes).bytes = bytes.take 16 :=
  List.take_append_of_le_length h

end Mvid

namespace Emission

open Image

variable {m : Module} {id : Mvid} {s : Option Bytes}

/-! ## The stages of an image -/

theorem length_blank (m : Module) :
    (blank m).signature.map List.length = m.signature.map List.length := by
  rw [blank, Option.map_map]
  refine Option.map_congr fun s _ => ?_
  rw [Function.comp_apply, List.length_map]

theorem blank_signature_of_eq_replicate {length : Nat}
    (h : m.signature.map List.length = some length) :
    (blank m).signature = some (List.replicate length 0) := by
  obtain ⟨b, hb, rfl⟩ := Option.map_eq_some_iff.1 h
  rw [blank, hb, Option.map_some, List.map_const']

/-- What stood in the places of the id and of the signature is gone. -/
theorem blank_congr (h : s.map List.length = m.signature.map List.length) :
    blank { m with mvid := id, signature := s } = blank m := by
  have hzeros : ∀ room : Option Bytes, (room.map fun b => b.map fun _ => (0 : UInt8)) =
      (room.map List.length).map fun length => List.replicate length 0 := by
    intro room
    rw [Option.map_map]
    refine Option.map_congr fun b _ => ?_
    rw [Function.comp_apply, List.map_const']
  rw [blank, blank, hzeros, hzeros, h]

/-- The version id of a module that has none so far. -/
def mvidOf (m : Module) : Mvid := .ofBytes (Sha1.digest (framed m).bytes)

theorem writeMvid_framed (m : Module) : writeMvid m (framed m) =
    .ok ⟨{ m with mvid := mvidOf m }, (framed { m with mvid := mvidOf m }).bytes⟩ := by
  have hpatch := overwrite?_mvid m (mvidOf m)
  unfold mvidOf at hpatch ⊢
  rw [writeMvid, patch, hpatch]
  rfl

/-- A signature covers the image in which its own place is empty. -/
theorem writeSignature_ok {signer : Signer} {signature : Bytes} (hs : m.signature = some signature)
    {offset length : Nat} (hslot : (framed m).signatureSlot = some (offset, length)) {w : Written}
    (h : writeSignature signer ⟨m, (framed m).bytes⟩ offset length = .ok w) :
    ∃ new, signer.sign (framed m).bytes = .ok new ∧ new.length = length ∧
      w = ⟨{ m with signature := some new }, (framed { m with signature := some new }).bytes⟩ := by
  rw [writeSignature, bind_eq_ok] at h
  obtain ⟨new, hsign, h⟩ := h
  by_cases hlength : new.length = length
  · have hpatch := overwrite?_signature hs hslot hlength
    simp only [hlength, ne_eq, not_true_eq_false, if_false, patch, hpatch] at h
    exact ⟨new, hsign, hlength, (Except.ok.inj h).symm⟩
  · simp only [ne_eq, hlength, not_false_eq_true, if_true] at h
    exact nomatch h

/-! ## Writing a module -/

variable {p : Policy} {signer : Option Signer} {log : Log} {w : Written}

/-- What is written of a module before it is signed. -/
def unsigned (m : Module) : Module := { blank m with mvid := mvidOf (blank m) }

/-- Only a module that fits is written. -/
theorem fits_of_encode (h : ((encode p signer m).run.run log).1 = .ok w) :
    (encodePayload (blank m)).Fits := by
  rcases hwrite : ofModule (blank m) with fault | image
  · rw [encode, hwrite] at h
    exact nomatch h
  · exact (ofModule_eq_ok_iff.1 hwrite).1

theorem encode_of_fits (hfits : (encodePayload (blank m)).Fits) : encode p signer m =
    match signer, (framed (blank m)).signatureSlot with
    | some signer, some (offset, length) =>
      if p.options.delaySign then do
        Logging.info "Delay signing: the signature slot is left empty"
        return ⟨unsigned m, (framed (unsigned m)).bytes⟩
      else
        Merging.ofExcept (writeSignature signer ⟨unsigned m, (framed (unsigned m)).bytes⟩ offset length)
    | _, _ => return ⟨unsigned m, (framed (unsigned m)).bytes⟩ := by
  rw [encode, ofModule_eq_framed hfits]
  rw [Merging.ofExcept_ok_bind, writeMvid_framed, Merging.ofExcept_ok_bind]
  rcases signer with _ | signer
  · rfl
  · rcases (framed (blank m)).signatureSlot with _ | ⟨offset, length⟩
    · rfl
    · rfl

/-- The signature that is written into the room that a module has for it. -/
inductive Signs (p : Policy) (m : Module) : Option Signer → Option Bytes → Prop where
  /-- There is neither a signer nor room for a signature. -/
  | without : m.signature = none → Signs p m none none
  /-- The room is left empty. -/
  | later {signer : Signer} : p.options.delaySign = true →
    m.signature.map List.length = some signer.key.signatureLength →
      Signs p m (some signer) (some (List.replicate signer.key.signatureLength 0))
  /-- What is signed is the image with the id and with an empty room. -/
  | signed {signer : Signer} {signature : Bytes} : p.options.delaySign = false →
    m.signature.map List.length = some signer.key.signatureLength →
    signature.length = signer.key.signatureLength →
    signer.sign (framed (unsigned m)).bytes = .ok signature →
      Signs p m (some signer) (some signature)

theorem Signs.room {s : Option Bytes} (h : Signs p m signer s) :
    s.map List.length = m.signature.map List.length := by
  cases h with
  | without hnone => rw [hnone]
  | later _ hroom => rw [hroom, Option.map_some, List.length_replicate]
  | signed _ hroom hlength => rw [hroom, Option.map_some, hlength]

/-- A module is written with the digest of its blank image as its id and with a signature. -/
theorem encode_ok (hroom : m.signature.map List.length = signer.map fun x => x.key.signatureLength)
    (h : ((encode p signer m).run.run log).1 = .ok w) :
    ∃ s, Signs p m signer s ∧ w.module = { m with mvid := mvidOf (blank m), signature := s } ∧
      w.image = (framed w.module).bytes := by
  rw [encode_of_fits (fits_of_encode h)] at h
  rcases signer with _ | signer
  · have hnone : m.signature = none := Option.map_eq_none_iff.1 hroom
    cases h
    have hunsigned : unsigned m = { m with mvid := mvidOf (blank m), signature := none } := by
      rw [unsigned, blank, hnone]
      rfl
    exact ⟨none, .without hnone, hunsigned, rfl⟩
  · have hblank := blank_signature_of_eq_replicate hroom
    obtain ⟨offset, hslot, -⟩ := slice_signature hblank
    rw [List.length_replicate] at hslot
    rw [hslot] at h
    dsimp only at h
    by_cases hdelay : p.options.delaySign = true
    · rw [if_pos hdelay] at h
      cases h
      refine ⟨_, .later hdelay hroom, ?_, rfl⟩
      rw [← hblank]
      rfl
    · rw [if_neg hdelay] at h
      obtain ⟨signature, hsign, hlength, rfl⟩ := writeSignature_ok (m := unsigned m) hblank hslot h
      exact ⟨some signature, .signed (Bool.not_eq_true _ ▸ hdelay) hroom hlength hsign, rfl, rfl⟩

/-- Neither the id nor the signature that a module comes with has any effect. -/
theorem encode_congr (h : s.map List.length = m.signature.map List.length) :
    encode p signer { m with mvid := id, signature := s } = encode p signer m := by
  rw [encode, encode, blank_congr h]

/-! ## What is in the places -/

/-- The places of an image hold what its other bytes say: the id is the start of their digest, and
the signature, unless it is left for later, is that of all but itself. -/
structure Sealed (p : Policy) (signer : Option Signer) (i : Image) : Prop where
  mvid : Bytes.slice i.bytes i.mvidOffset 16 = (Sha1.digest i.cleared).take 16
  slotless : signer = none → i.signatureSlot = none
  signature : ∀ x, signer = some x → ∃ offset, i.signatureSlot = some (offset, x.key.signatureLength) ∧
    if p.options.delaySign then
      Bytes.slice i.bytes offset x.key.signatureLength = List.replicate x.key.signatureLength 0
    else
      x.sign (Bytes.clear i.bytes offset x.key.signatureLength) =
        .ok (Bytes.slice i.bytes offset x.key.signatureLength)

/-- Without what is in its places, an image is that of the blank module. -/
theorem cleared_framed (h : s.map List.length = m.signature.map List.length) :
    (framed { m with mvid := id, signature := s }).cleared = (framed (blank m)).bytes := by
  have hmvid := clear_mvid { m with mvid := id, signature := s }
  have hslot : (framed { m with mvid := id, signature := s }).signatureSlot =
      (framed { m with mvid := .zero, signature := s }).signatureSlot := by
    rw [framed_congr h, framed_congr h]
  rw [cleared, hmvid, hslot]
  rcases s with _ | signature
  · have hnone : m.signature = none := Option.map_eq_none_iff.1 h.symm
    rw [blank, hnone]
    rfl
  · obtain ⟨offset, hsome, -⟩ :=
      slice_signature (m := { m with mvid := .zero, signature := some signature }) rfl
    have hblank := blank_signature_of_eq_replicate h.symm
    rw [hsome]
    dsimp only
    rw [clear_signature rfl hsome]
    dsimp only
    rw [← hblank]
    rfl

theorem mvid_bytes (m : Module) : (mvidOf m).bytes = (Sha1.digest (framed m).bytes).take 16 := by
  have hlong : 16 ≤ (Sha1.digest (framed m).bytes).length := by
    rw [Sha1.length_digest]
    decide
  exact Mvid.bytes_ofBytes hlong

/-- With its id and its signature a module is written as a sealed image. -/
theorem sealed_framed (h : Signs p m signer s) :
    Sealed p signer (framed { m with mvid := mvidOf (blank m), signature := s }) := by
  constructor
  · rw [slice_mvid, cleared_framed h.room, mvid_bytes]
  · rintro rfl
    cases h with
    | without => rfl
  · rintro x rfl
    cases h with
    | later hdelay hroom =>
      obtain ⟨offset, hslot, hslice⟩ := slice_signature
        (m := { m with mvid := mvidOf (blank m), signature := some (.replicate x.key.signatureLength 0) }) rfl
      rw [List.length_replicate] at hslot hslice
      refine ⟨offset, hslot, ?_⟩
      rw [if_pos hdelay]
      exact hslice
    | @signed _ signature hdelay hroom hlength hsign =>
      obtain ⟨offset, hslot, hslice⟩ := slice_signature
        (m := { m with mvid := mvidOf (blank m), signature := some signature }) rfl
      rw [hlength] at hslot hslice
      have hblank := blank_signature_of_eq_replicate hroom
      refine ⟨offset, hslot, ?_⟩
      rw [hdelay, hslice, clear_signature rfl hslot]
      dsimp only
      rw [← hblank]
      exact hsign

/-! ## Emitted images -/

/-- A finished module has room for a signature exactly where there is a signer. -/
theorem room_of_finish {set : ModuleSet} {merged : Module} (h : finish set p signer merged = .ok m) :
    m.signature.map List.length = signer.map fun x => x.key.signatureLength := by
  have hsignature : m.signature = signer.map fun x => List.replicate x.key.signatureLength 0 := by
    rw [finish] at h
    by_cases homit : p.options.omitManifest = true
    · rw [if_pos homit] at h
      cases h
      rfl
    · rw [if_neg homit, bind_eq_ok] at h
      obtain ⟨manifest, -, h⟩ := h
      cases h
      rfl
  rw [hsignature, Option.map_map]
  refine Option.map_congr fun x _ => ?_
  rw [Function.comp_apply, List.length_replicate]

/-- With its id and its signature a module fits as it did without them. -/
theorem ofModule_of_signs (hsigns : Signs p m signer s) (h : ((encode p signer m).run.run log).1 = .ok w) :
    ofModule { m with mvid := mvidOf (blank m), signature := s } =
      .ok (framed { m with mvid := mvidOf (blank m), signature := s }) := by
  have hroom := hsigns.room.trans (length_blank m).symm
  exact ofModule_eq_framed (fits_congr (m := blank m) (fits_of_encode h) hroom)

/-- What is written of a finished module has its contents and reads back. -/
theorem ofImage_of_encode {set : ModuleSet} {merged : Module}
    (hfinish : finish set p signer merged = .ok m)
    (hnesting : ∀ t ∈ m.types, t.nesting ≤ maxNesting) (hbases : m.hasNamedBases)
    (h : ((encode p signer m).run.run log).1 = .ok w) :
    Module.ofImage w.image = .ok w.module.canonical ∧
      w.module = { m with mvid := w.module.mvid, signature := w.module.signature } := by
  obtain ⟨s, hsigns, hmodule, himage⟩ := encode_ok (room_of_finish hfinish) h
  rw [himage, hmodule]
  exact ⟨Module.ofImage_of_readsBack (ofModule_of_signs hsigns h) (readsBack_payload hbases hnesting), rfl⟩

/-- The image of a finished module is the written form of the module that comes with it, and reads
back as this module. Its version id is the start of the digest of everything else, and its signature
covers all but itself, or is left empty. What the module had for an id and a signature before makes no
difference, so that emitting the result again gives the same image. -/
theorem encode_sealed {set : ModuleSet} {merged : Module}
    (hfinish : finish set p signer merged = .ok m)
    (hnesting : ∀ t ∈ m.types, t.nesting ≤ maxNesting) (hbases : m.hasNamedBases)
    (h : ((encode p signer m).run.run log).1 = .ok w) :
    Module.ofImage w.image = .ok w.module.canonical ∧
    w.module = { m with mvid := w.module.mvid, signature := w.module.signature } ∧
    (∃ i, ofModule w.module = .ok i ∧ i.bytes = w.image ∧ Sealed p signer i) ∧
    (∀ id s, s.map List.length = m.signature.map List.length →
      encode p signer { m with mvid := id, signature := s } = encode p signer m) ∧
    encode p signer w.module = encode p signer m := by
  obtain ⟨s, hsigns, hmodule, himage⟩ := encode_ok (room_of_finish hfinish) h
  rcases w with ⟨u, image⟩
  dsimp only at hmodule himage ⊢
  subst hmodule himage
  have hwrite := ofModule_of_signs hsigns h
  refine ⟨?_, rfl, ⟨_, hwrite, rfl, sealed_framed hsigns⟩, ?_, encode_congr hsigns.room⟩
  · exact Module.ofImage_of_readsBack hwrite (readsBack_payload hbases hnesting)
  · intro id s' hroom
    exact encode_congr hroom

/-- A key for signatures of eight bytes. -/
def shortKey : Signer :=
  ⟨⟨"short.snk"⟩, ⟨64, 0x10001, [0xC3, 0x5A, 0x17, 0x88, 0x21, 0x4E, 0x90, 0xD1], some [1, 2, 3, 4]⟩⟩

/-- A policy that adds nothing to the output but its strong name. -/
def signingPolicy : Policy :=
  { Relocation.unionPolicy with options := { Relocation.unionPolicy.options with omitManifest := true } }

/-- A module with room for a signature with this key. -/
def signedBox : Module :=
  let box := Relocation.boxModule "first" (some ⟨0x06000001⟩)
  { box with
    identity.strongName := some (.publicKey shortKey.key.publicKey)
    signature := some (List.replicate 8 0) }

theorem encode_sealed_signedBox : ∃ w,
    finish Relocation.boxes signingPolicy (some shortKey) (Relocation.boxModule "first" (some ⟨0x06000001⟩)) =
      .ok signedBox ∧
    ((encode signingPolicy (some shortKey) signedBox).run.run []).1 = .ok w ∧
    Module.ofImage w.image = .ok w.module.canonical ∧
    (∃ i, ofModule w.module = .ok i ∧ i.bytes = w.image ∧ Sealed signingPolicy (some shortKey) i) ∧
    encode signingPolicy (some shortKey) w.module = encode signingPolicy (some shortKey) signedBox := by
  have hfinish : finish Relocation.boxes signingPolicy (some shortKey)
      (Relocation.boxModule "first" (some ⟨0x06000001⟩)) = .ok signedBox := rfl
  have hok : ((encode signingPolicy (some shortKey) signedBox).run.run []).1.isOk := by decide +kernel
  obtain ⟨w, h⟩ := exists_eq_ok hok
  obtain ⟨hread, -, hsealed, -, hagain⟩ := encode_sealed hfinish (by decide) (by decide) h
  exact ⟨w, hfinish, h, hread, hsealed, hagain⟩

end Emission

end ModuleLinker
