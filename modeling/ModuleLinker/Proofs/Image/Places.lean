import ModuleLinker.Proofs.Image.RoundTrip

namespace ModuleLinker

/-! # Places in images

The version id and the signature of an image are filled in when the rest of it is there. They are
written as they are, in places that depend neither on them nor on each other: an image is its id and
its signature between parts that stay the same.
-/

/-! ## Bytes in a place -/

namespace Bytes

/-- The bytes of a place. -/
def slice (bytes : Bytes) (offset length : Nat) : Bytes := (bytes.drop offset).take length

/-- The bytes with zeros in a place. -/
def clear (bytes : Bytes) (offset length : Nat) : Bytes :=
  bytes.take offset ++ List.replicate length 0 ++ bytes.drop (offset + length)

variable {front middle back : Bytes} {offset length : Nat}

theorem slice_append (hoffset : front.length = offset) (hlength : middle.length = length) :
    slice (front ++ (middle ++ back)) offset length = middle := by
  subst hoffset hlength
  rw [slice, List.drop_left, List.take_left]

theorem clear_append (hoffset : front.length = offset) (hlength : middle.length = length) :
    clear (front ++ (middle ++ back)) offset length =
      front ++ (List.replicate length 0 ++ back) := by
  subst hoffset hlength
  rw [clear, List.take_left, ← List.append_assoc front middle, ← List.length_append, List.drop_left,
    List.append_assoc]

/-- A value is written over bytes that take as much room. -/
theorem overwrite?_append {value : Bytes} (hoffset : front.length = offset)
    (hlength : value.length = middle.length) :
    Encoding.overwrite? (front ++ (middle ++ back)) offset value =
      some (front ++ (value ++ back)) := by
  subst hoffset
  have hroom : front.length + value.length ≤ (front ++ (middle ++ back)).length := by
    rw [List.length_append, List.length_append]
    omega
  rw [Encoding.overwrite?, if_pos hroom, List.take_left, hlength, ← List.append_assoc front middle,
    ← List.length_append, List.drop_left, List.append_assoc]

end Bytes

/-! ## Images -/

namespace Image

open Encoding

/-- What is written of a signature before its bytes. -/
def signatureMark : Option Bytes → Bytes
  | some signature => 1 :: sevenBit (UInt32.ofNat signature.length)
  | none => [0]

theorem encodeSignature_eq (s : Option Bytes) :
    encodeSignature s = ofBytes (signatureMark s ++ s.getD []) := by
  cases s <;> rfl

/-- Signatures that take the same room have the same mark. -/
theorem signatureMark_congr {s s' : Option Bytes}
    (h : s.map List.length = s'.map List.length) : signatureMark s = signatureMark s' := by
  cases s with
  | none =>
    cases s' with
    | none => rfl
    | some _ => exact nomatch h
  | some signature =>
    cases s' with
    | none => exact nomatch h
    | some signature' =>
      have hlength : signature.length = signature'.length := Option.some.inj h
      rw [signatureMark, signatureMark, hlength]

theorem length_getD_congr {s s' : Option Bytes} (h : s.map List.length = s'.map List.length) :
    (s.getD []).length = (s'.getD []).length := by
  have hgetD : ∀ t : Option Bytes, (t.getD []).length = (t.map List.length).getD 0 := by
    intro t
    cases t <;> rfl
  rw [hgetD, hgetD, h]

/-- The bytes of an image between its version id and its signature. -/
def middle (m : Module) : Bytes := (encodeTables m).bytes ++ signatureMark m.signature

/-- The number of bytes behind the header. -/
def payloadLength (m : Module) : Nat :=
  (encodeHead m).bytes.length + (16 + ((middle m).length + (m.signature.getD []).length))

/-- The bytes of an image before its version id. -/
def front (m : Module) : Bytes :=
  magic ++ (u16 version).bytes ++ [0, 0] ++ (u32 (UInt32.ofNat (payloadLength m))).bytes ++
    (encodeHead m).bytes

theorem length_front (m : Module) : (front m).length = headerLength + (encodeHead m).bytes.length := by
  rw [front, List.length_append]
  rfl

theorem fault_payload {m : Module} : (encodePayload m).fault = none ↔
    (encodeHead m).fault = none ∧ (encodeTables m).fault = none := by
  rw [encodePayload, encodeSignature_eq, fault_append, fault_append, fault_append]
  constructor
  · rintro ⟨⟨⟨hhead, -⟩, htables⟩, -⟩
    exact ⟨hhead, htables⟩
  · rintro ⟨hhead, htables⟩
    exact ⟨⟨⟨hhead, rfl⟩, htables⟩, rfl⟩

theorem bytes_payload {m : Module} (h : (encodePayload m).fault = none) :
    (encodePayload m).bytes =
      (encodeHead m).bytes ++ (m.mvid.bytes ++ (middle m ++ m.signature.getD [])) := by
  obtain ⟨hhead, htables⟩ := fault_payload.1 h
  have hfront : (encodeHead m ++ ofBytes m.mvid.bytes).fault = none := fault_append.2 ⟨hhead, rfl⟩
  have hbody := fault_append.2 ⟨hfront, htables⟩
  rw [encodePayload, encodeSignature_eq, bytes_append hbody, bytes_append hfront, bytes_append hhead,
    bytes_ofBytes, bytes_ofBytes, middle]
  simp only [List.append_assoc]

theorem length_payload {m : Module} (h : (encodePayload m).fault = none) :
    (encodePayload m).bytes.length = payloadLength m := by
  rw [bytes_payload h]
  simp only [List.length_append, m.mvid.length_bytes, payloadLength]

/-- The image of a module whose payload fits: its version id and its signature stand between parts
in which neither of them is written. -/
def framed (m : Module) : Image where
  bytes := front m ++ (m.mvid.bytes ++ (middle m ++ m.signature.getD []))
  mvidOffset := (front m).length
  signatureSlot := m.signature.map fun s =>
    ((front m).length + (16 + (middle m).length), s.length)

theorem ofModule_eq_framed {m : Module} (h : (encodePayload m).Fits) :
    ofModule m = .ok (framed m) := by
  have hlength := length_payload h.fault_eq
  have hfits : ¬ UInt32.size ≤ (encodePayload m).bytes.length := Nat.not_le.2 h.length_lt
  unfold ofModule result
  rw [h.fault_eq]
  simp only [bind, Except.bind, hfits, if_false, pure, Except.pure, Except.ok.injEq]
  rw [framed, Image.mk.injEq]
  refine ⟨?_, ?_, ?_⟩
  · rw [hlength, bytes_payload h.fault_eq, front]
    simp only [List.append_assoc]
  · rw [length_front]
  · refine Option.map_congr fun s hs => ?_
    -- the signature is what the payload ends with
    rw [hlength, length_front, payloadLength, Option.mem_def.1 hs, Option.getD_some, Prod.mk.injEq]
    constructor
    · omega
    · rfl

/-- What is written of a module is framed. -/
theorem ofModule_eq_ok_iff {m : Module} {image : Image} :
    ofModule m = .ok image ↔ (encodePayload m).Fits ∧ framed m = image := by
  constructor
  · intro h
    have hfits := (ofModule_spec h).1
    rw [ofModule_eq_framed hfits] at h
    exact ⟨hfits, Except.ok.inj h⟩
  · rintro ⟨hfits, rfl⟩
    exact ofModule_eq_framed hfits

/-! ## Other ids and signatures -/

section

variable {m : Module} {v : Mvid} {s : Option Bytes}

theorem middle_congr (h : s.map List.length = m.signature.map List.length) :
    middle { m with mvid := v, signature := s } = middle m := by
  rw [middle, middle, signatureMark_congr h]
  rfl

theorem payloadLength_congr (h : s.map List.length = m.signature.map List.length) :
    payloadLength { m with mvid := v, signature := s } = payloadLength m := by
  rw [payloadLength, payloadLength, middle_congr h, length_getD_congr h]
  rfl

/-- A payload that fits does so with any version id, and with any signature that takes as much
room. -/
theorem fits_congr (hm : (encodePayload m).Fits)
    (h : s.map List.length = m.signature.map List.length) :
    (encodePayload { m with mvid := v, signature := s }).Fits := by
  have hparts := fault_payload.1 hm.fault_eq
  have hfault := fault_payload (m := { m with mvid := v, signature := s }).2 hparts
  constructor
  · exact hfault
  · rw [length_payload hfault, payloadLength_congr h, ← length_payload hm.fault_eq]
    exact hm.length_lt

theorem front_congr (h : s.map List.length = m.signature.map List.length) :
    front { m with mvid := v, signature := s } = front m := by
  rw [front, payloadLength_congr h]
  rfl

/-- With another version id and another signature, an image is the same outside of their places. -/
theorem framed_congr (h : s.map List.length = m.signature.map List.length) :
    framed { m with mvid := v, signature := s } =
      { bytes := front m ++ (v.bytes ++ (middle m ++ s.getD []))
        mvidOffset := (framed m).mvidOffset
        signatureSlot := (framed m).signatureSlot } := by
  have hslot : s.map (fun b => ((front m).length + (16 + (middle m).length), b.length)) =
      m.signature.map fun b => ((front m).length + (16 + (middle m).length), b.length) := by
    have hmap := congrArg
      (Option.map fun length => ((front m).length + (16 + (middle m).length), length)) h
    rw [Option.map_map, Option.map_map] at hmap
    exact hmap
  rw [framed, front_congr h, middle_congr h, Image.mk.injEq]
  exact ⟨rfl, rfl, hslot⟩

/-! ## Reading and filling in the places -/

theorem slice_mvid (m : Module) :
    Bytes.slice (framed m).bytes (framed m).mvidOffset 16 = m.mvid.bytes :=
  Bytes.slice_append rfl m.mvid.length_bytes

theorem clear_mvid (m : Module) : Bytes.clear (framed m).bytes (framed m).mvidOffset 16 =
    (framed { m with mvid := .zero }).bytes := by
  rw [framed_congr (s := m.signature) rfl]
  exact Bytes.clear_append rfl m.mvid.length_bytes

theorem overwrite?_mvid (m : Module) (id : Mvid) :
    overwrite? (framed m).bytes (framed m).mvidOffset id.bytes =
      some (framed { m with mvid := id }).bytes := by
  have hlength : id.bytes.length = m.mvid.bytes.length := by rw [id.length_bytes, m.mvid.length_bytes]
  rw [framed_congr (s := m.signature) rfl]
  exact Bytes.overwrite?_append rfl hlength

/-- The signature is what an image ends with. -/
theorem bytes_framed_of_signature {signature : Bytes} (hs : m.signature = some signature) :
    (framed m).bytes = front m ++ (m.mvid.bytes ++ middle m) ++ (signature ++ []) ∧
      (framed m).signatureSlot =
        some ((front m ++ (m.mvid.bytes ++ middle m)).length, signature.length) := by
  constructor
  · simp only [framed, hs, Option.getD_some, List.append_assoc, List.append_nil]
  · rw [framed, hs, Option.map_some, List.length_append, List.length_append, m.mvid.length_bytes]

theorem slice_signature {signature : Bytes} (hs : m.signature = some signature) :
    ∃ offset, (framed m).signatureSlot = some (offset, signature.length) ∧
      Bytes.slice (framed m).bytes offset signature.length = signature := by
  obtain ⟨hbytes, hslot⟩ := bytes_framed_of_signature hs
  refine ⟨_, hslot, ?_⟩
  rw [hbytes]
  exact Bytes.slice_append rfl rfl

theorem clear_signature {signature : Bytes} (hs : m.signature = some signature) {offset length : Nat}
    (hslot : (framed m).signatureSlot = some (offset, length)) :
    Bytes.clear (framed m).bytes offset length =
      (framed { m with signature := some (List.replicate length 0) }).bytes := by
  obtain ⟨hbytes, hslot'⟩ := bytes_framed_of_signature hs
  obtain ⟨rfl, rfl⟩ := Prod.mk.inj (Option.some.inj (hslot'.symm.trans hslot))
  have hroom : (some (List.replicate signature.length (0 : UInt8))).map List.length =
      m.signature.map List.length := by
    rw [hs, Option.map_some, Option.map_some, List.length_replicate]
  rw [framed_congr (v := m.mvid) hroom, hbytes, Bytes.clear_append rfl rfl]
  simp only [List.append_assoc, List.append_nil, Option.getD_some]

theorem overwrite?_signature {signature new : Bytes} (hs : m.signature = some signature)
    {offset length : Nat} (hslot : (framed m).signatureSlot = some (offset, length))
    (hnew : new.length = length) :
    overwrite? (framed m).bytes offset new = some (framed { m with signature := some new }).bytes := by
  obtain ⟨hbytes, hslot'⟩ := bytes_framed_of_signature hs
  obtain ⟨rfl, rfl⟩ := Prod.mk.inj (Option.some.inj (hslot'.symm.trans hslot))
  have hroom : (some new).map List.length = m.signature.map List.length := by
    rw [hs, Option.map_some, Option.map_some, hnew]
  rw [framed_congr (v := m.mvid) hroom, hbytes, Bytes.overwrite?_append rfl hnew]
  simp only [List.append_assoc, List.append_nil, Option.getD_some]

end

/-- The bytes of an image with zeros in the places of its version id and of its signature. -/
def cleared (i : Image) : Bytes :=
  let bytes := Bytes.clear i.bytes i.mvidOffset 16
  match i.signatureSlot with
  | some (offset, length) => Bytes.clear bytes offset length
  | none => bytes

end Image

end ModuleLinker
