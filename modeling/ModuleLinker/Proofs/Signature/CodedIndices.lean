import ModuleLinker.Proofs.Signature.Grammar

namespace ModuleLinker

/-! # The rows of coded indices

A coded index is read from up to 29 bits, two of them for the table, so its row has up to 27 bits. A token
has room for 24. The rows above that are not refused: their high bits are dropped, and the token names
another row. So a token tells the coded index that it was read from, and two indices are read as different
tokens, as far as the low 26 bits go and no further.
-/

open Reader

namespace Token

/-! ## Tokens of coded indices -/

/-- What the token of a coded index keeps of it: the tag and 24 bits of the row. -/
def keptBits (index : UInt32) : Nat := index.toNat % 2 ^ 26

theorem toNat_shiftRight_two (index : UInt32) : (index >>> 2).toNat = index.toNat / 4 := by
  simp only [UInt32.toNat_shiftRight, UInt32.reduceToNat, Nat.reduceMod, Nat.shiftRight_eq_div_pow,
    Nat.reducePow]

theorem row_ofCoded (index : UInt32) : (ofCoded index).row.toNat = index.toNat / 4 % 2 ^ 24 := by
  rw [ofCoded, row_ofRow, toNat_shiftRight_two]

/-- The index that is written for the token of a coded index. -/
theorem codedIndex_ofCoded {index : UInt32} (h : IsCoded index) :
    (ofCoded index).codedIndex = .ok (UInt32.ofNat (keptBits index)) := by
  have hrow := row_ofCoded index
  have hlow : (UInt32.ofNat (keptBits index)).toNat = keptBits index :=
    Nat.mod_eq_of_lt ((Nat.mod_lt _ (by decide)).trans (by decide))
  have hsum : keptBits index = index.toNat / 4 % 2 ^ 24 * 2 ^ 2 + index.toNat % 4 := by
    unfold keptBits
    omega
  -- the written index ends with the tag that the index had
  have hcoded (tag : UInt32) (htag : tag.toNat < 4) (heq : index.toNat % 4 = tag.toNat) :
      (ofCoded index).row <<< 2 ||| tag = UInt32.ofNat (keptBits index) := by
    apply UInt32.toNat_inj.mp
    rw [toNat_coded htag, hrow, hlow, hsum, heq]
  unfold codedIndex
  by_cases hzero : index.toNat % 4 = 0
  · have htable : (ofCoded index).table = Table.typeDef := by rw [ofCoded, table_ofRow, if_pos hzero]
    have hdef := hcoded 0 (by decide) hzero
    rw [UInt32.or_zero] at hdef
    rw [if_pos htable, hdef]
  · have htable : (ofCoded index).table = Table.typeRef := by rw [ofCoded, table_ofRow, if_neg hzero]
    have hone : index.toNat % 4 = 1 := by
      have hlt : index.toNat % 4 < 2 := h
      omega
    rw [htable, if_neg (by decide), if_pos rfl, hcoded 1 (by decide) hone]

/-- The index is written again as it was read if and only if its row has no more than 24 bits. -/
theorem codedIndex_ofCoded_eq_iff {index : UInt32} (h : IsCoded index) :
    (ofCoded index).codedIndex = .ok index ↔ index.toNat < 2 ^ 26 := by
  rw [codedIndex_ofCoded h, Except.ok.injEq]
  constructor
  · intro heq
    rw [← heq]
    exact lt_of_le_of_lt (Nat.mod_le _ _) (Nat.mod_lt _ (by decide))
  · intro hlt
    rw [keptBits, Nat.mod_eq_of_lt hlt, UInt32.ofNat_toNat]

theorem mapM_codedIndex_eq_ok_iff {indices : List UInt32} (hcoded : ∀ index ∈ indices, IsCoded index) :
    (indices.map ofCoded).mapM codedIndex = .ok indices ↔ ∀ index ∈ indices, index.toNat < 2 ^ 26 := by
  induction indices with
  | nil => exact ⟨fun _ => nofun, fun _ => rfl⟩
  | cons index indices ih =>
    obtain ⟨hhead, htail⟩ := List.forall_mem_cons.1 hcoded
    rw [List.map_cons, List.mapM_cons, List.forall_mem_cons, ← codedIndex_ofCoded_eq_iff hhead,
      ← ih htail, codedIndex_ofCoded hhead]
    rcases (indices.map ofCoded).mapM codedIndex with fault | rest
    · exact ⟨nofun, fun h => nomatch h.2⟩
    · show Except.ok (_ :: _) = Except.ok _ ↔ _
      simp only [Except.ok.injEq, List.cons.injEq]

/-- Two coded indices are read as one token if and only if their low 26 bits are the same. -/
theorem ofCoded_eq_iff {i j : UInt32} (hi : IsCoded i) (hj : IsCoded j) :
    ofCoded i = ofCoded j ↔ keptBits i = keptBits j := by
  constructor
  · intro heq
    have hindex := congrArg codedIndex heq
    rw [codedIndex_ofCoded hi, codedIndex_ofCoded hj, Except.ok.injEq] at hindex
    have hlt (index : UInt32) : keptBits index < 2 ^ 32 := (Nat.mod_lt _ (by decide)).trans (by decide)
    have hnat := congrArg UInt32.toNat hindex
    rwa [UInt32.toNat_ofNat_of_lt' (hlt i), UInt32.toNat_ofNat_of_lt' (hlt j)] at hnat
  · intro heq
    unfold keptBits at heq
    have htag : i.toNat % 4 = j.toNat % 4 := by omega
    apply Token.ext
    rw [ofCoded, ofCoded, htag, toNat_ofRow, toNat_ofRow, toNat_shiftRight_two, toNat_shiftRight_two]
    omega

end Token

open Token

/-! ## Tokens of signatures -/

mutual

/-- The tokens of a type are those of the coded indices in its bytes. -/
theorem TypeForm.tokens_eq {bytes : Bytes} {indices : List UInt32} {s : TypeSig}
    (h : TypeForm bytes indices s) :
    s.tokens = indices.map ofCoded ∧ ∀ index ∈ indices, IsCoded index := by
  cases h with
  | primitive | typeParam | methodParam => exact ⟨rfl, nofun⟩
  | pointer hs => exact hs.tokens_eq
  | byRef hs => exact hs.tokens_eq
  | array hs => exact hs.tokens_eq
  | valueType hform hcoded => exact ⟨rfl, List.forall_mem_singleton.2 hcoded⟩
  | classType hform hcoded => exact ⟨rfl, List.forall_mem_singleton.2 hcoded⟩
  | instantiation hbase hnamed hcount hlength harguments =>
    obtain ⟨hb, hbcoded⟩ := hbase.tokens_eq
    obtain ⟨ha, hacoded⟩ := harguments.tokens_eq
    refine ⟨?_, List.forall_mem_append.2 ⟨hbcoded, hacoded⟩⟩
    rw [TypeSig.tokens, hb, ha, List.map_append]

theorem TypesForm.tokens_eq {bytes : Bytes} {indices : List UInt32} {ss : List TypeSig}
    (h : TypesForm bytes indices ss) :
    TypeSig.tokensOf ss = indices.map ofCoded ∧ ∀ index ∈ indices, IsCoded index := by
  cases h with
  | nil => exact ⟨rfl, nofun⟩
  | cons hs hss =>
    obtain ⟨hhead, hheadCoded⟩ := hs.tokens_eq
    obtain ⟨htail, htailCoded⟩ := hss.tokens_eq
    refine ⟨?_, List.forall_mem_append.2 ⟨hheadCoded, htailCoded⟩⟩
    rw [TypeSig.tokensOf, hhead, htail, List.map_append]

end

theorem MethodTail.tokens_eq {lead : UInt8} {bytes : Bytes} {indices : List UInt32} {s : MethodSig}
    (h : MethodTail lead bytes indices s) :
    s.tokens = indices.map ofCoded ∧ ∀ index ∈ indices, IsCoded index := by
  cases h with
  | mk hgenerics hcount hlength hresult hparams =>
    obtain ⟨hr, hrcoded⟩ := hresult.tokens_eq
    obtain ⟨hp, hpcoded⟩ := hparams.tokens_eq
    refine ⟨?_, List.forall_mem_append.2 ⟨hrcoded, hpcoded⟩⟩
    rw [MethodSig.tokens, hr, hp, List.map_append]

theorem MethodForm.tokens_eq {bytes : Bytes} {indices : List UInt32} {s : MethodSig}
    (h : MethodForm bytes indices s) :
    s.tokens = indices.map ofCoded ∧ ∀ index ∈ indices, IsCoded index := by
  cases h with
  | mk hlead htail => exact htail.tokens_eq

theorem MemberForm.tokens_eq {bytes : Bytes} {indices : List UInt32} {s : MemberSig}
    (h : MemberForm bytes indices s) :
    s.tokens = indices.map ofCoded ∧ ∀ index ∈ indices, IsCoded index := by
  cases h with
  | field hlead hs => exact hs.tokens_eq
  | method hlead htail => exact htail.tokens_eq

/-- What the tokens of a signature tell of the coded indices in the bytes that it is read from. -/
structure Reader.KeepsLowRows (r : Reader α) (form : Bytes → List UInt32 → α → Prop)
    (tokens : α → List Token) : Prop where
  /-- Whatever is answered, the bytes that were taken are a form of it. -/
  accepts : r.Accepts fun s taken => ∃ indices, form taken indices s
  /-- And every form is read as what it says. -/
  reads {taken : Bytes} {indices : List UInt32} {s : α} (h : form taken indices s) : r.Reads taken s
  tokens_eq {taken : Bytes} {indices : List UInt32} {s : α} (h : form taken indices s) :
    tokens s = indices.map ofCoded
  /-- The tokens are written as the indices that were read if and only if no row has more than 24 bits. -/
  exact_iff {taken : Bytes} {indices : List UInt32} {s : α} (h : form taken indices s) :
    (tokens s).mapM codedIndex = .ok indices ↔ ∀ index ∈ indices, index.toNat < 2 ^ 26
  /-- Two tokens, of one signature or of two, are the same if and only if their indices have the same low
  26 bits. -/
  same_iff {taken taken' : Bytes} {indices indices' : List UInt32} {s s' : α}
    (h : form taken indices s) (h' : form taken' indices' s') (a b : Nat) :
    (tokens s)[a]? = (tokens s')[b]? ↔ indices[a]?.map keptBits = indices'[b]?.map keptBits

theorem Reader.keepsLowRows_of {r : Reader α} {form : Bytes → List UInt32 → α → Prop}
    {tokens : α → List Token} (haccepts : r.Accepts fun s taken => ∃ indices, form taken indices s)
    (hreads : ∀ {taken indices s}, form taken indices s → r.Reads taken s)
    (htokens : ∀ {taken indices s}, form taken indices s →
      tokens s = indices.map ofCoded ∧ ∀ index ∈ indices, IsCoded index) :
    r.KeepsLowRows form tokens := by
  refine ⟨haccepts, hreads, fun h => (htokens h).1, ?_, ?_⟩
  · intro taken indices s h
    obtain ⟨heq, hcoded⟩ := htokens h
    rw [heq]
    exact mapM_codedIndex_eq_ok_iff hcoded
  · intro taken taken' indices indices' s s' h h' a b
    obtain ⟨heq, hcoded⟩ := htokens h
    obtain ⟨heq', hcoded'⟩ := htokens h'
    rw [heq, heq', List.getElem?_map, List.getElem?_map]
    rcases hi : indices[a]? with _ | i <;> rcases hj : indices'[b]? with _ | j
    · simp
    · simp
    · simp
    · have hiff := ofCoded_eq_iff (hcoded i (List.mem_of_getElem? hi)) (hcoded' j (List.mem_of_getElem? hj))
      simpa using hiff

/-- A token is read from an index with the tag of a definition or of a reference. It is written as that
index if and only if the row of the index has no more than 24 bits, and otherwise as the index less the
bits above; two indices are read as one token if and only if they agree in their low 26 bits. The same
holds of the tokens in types, in method signatures and in member signatures. -/
theorem decodeCoded_exact_iff (c : Cursor) :
    (∀ t c', decodeCoded.runAt c = (.ok t, c') ↔
      ∃ index, Reader.compressed.runAt c = (.ok index, c') ∧ IsCoded index ∧ t = ofCoded index) ∧
    (∀ index, IsCoded index →
      (ofCoded index).codedIndex = .ok (UInt32.ofNat (index.toNat % 2 ^ 26)) ∧
      ((ofCoded index).codedIndex = .ok index ↔ index.toNat < 2 ^ 26)) ∧
    (∀ i j, IsCoded i → IsCoded j → (ofCoded i = ofCoded j ↔ i.toNat % 2 ^ 26 = j.toNat % 2 ^ 26)) ∧
    TypeSig.decode.KeepsLowRows TypeForm TypeSig.tokens ∧
    MethodSig.decode.KeepsLowRows MethodForm MethodSig.tokens ∧
    MemberSig.decode.KeepsLowRows MemberForm MemberSig.tokens := by
  refine ⟨?_, ?_, ?_, ?_, ?_, ?_⟩
  · intro t c'
    constructor
    · intro hrun
      rw [decodeCoded_eq] at hrun
      obtain ⟨index, d, hindex, hrest⟩ := runAt_bind_eq_ok hrun
      split_ifs at hrest with hcoded
      · cases hrest
        exact ⟨index, hindex, hcoded, rfl⟩
      · exact nomatch hrest
    · rintro ⟨index, hindex, hcoded, rfl⟩
      rw [decodeCoded_eq, runAt_bind_of_ok hindex, if_pos (show index.toNat % 4 < 2 from hcoded)]
      rfl
  · intro index hcoded
    exact ⟨codedIndex_ofCoded hcoded, codedIndex_ofCoded_eq_iff hcoded⟩
  · intro i j hi hj
    exact ofCoded_eq_iff hi hj
  · exact keepsLowRows_of TypeSig.accepts_decode TypeSig.reads_decode TypeForm.tokens_eq
  · exact keepsLowRows_of MethodSig.accepts_decode MethodSig.reads_decode MethodForm.tokens_eq
  · exact keepsLowRows_of MemberSig.accepts_decode MemberSig.reads_decode MemberForm.tokens_eq

/-- The largest row that a token has room for is written as it was read. -/
theorem decodeCoded_exact_iff_largestRow :
    IsCoded 0x03FFFFFD ∧ (ofCoded 0x03FFFFFD).codedIndex = .ok 0x03FFFFFD ∧
      decodeCoded.runAt (.start [0xC3, 0xFF, 0xFF, 0xFD]) = (.ok (ofCoded 0x03FFFFFD), ⟨[], 4⟩) := by
  have hcoded : IsCoded 0x03FFFFFD := by unfold IsCoded; decide
  refine ⟨hcoded, ((decodeCoded_exact_iff (.start [])).2.1 _ hcoded).2.2 (by decide), ?_⟩
  exact ((decodeCoded_exact_iff _).1 _ _).2 ⟨0x03FFFFFD, rfl, hcoded, rfl⟩

/-- Row `2 ^ 24 + 1` of the types is read as row 1, also inside a type, and written as row 1. -/
theorem decodeCoded_aliases_rows :
    Reader.compressed.runAt (.start [0xC4, 0x00, 0x00, 0x04]) = (.ok 0x04000004, ⟨[], 4⟩) ∧
    decodeCoded.runAt (.start [0xC4, 0x00, 0x00, 0x04]) = (.ok ⟨0x02000001⟩, ⟨[], 4⟩) ∧
    codedIndex ⟨0x02000001⟩ = .ok 4 ∧
    TypeSig.decode.run [0x12, 0xC4, 0x00, 0x00, 0x04] = .ok (.classType ⟨0x02000001⟩) ∧
    TypeSig.decode.run [0x12, 0x04] = .ok (.classType ⟨0x02000001⟩) := by
  decide

end ModuleLinker
