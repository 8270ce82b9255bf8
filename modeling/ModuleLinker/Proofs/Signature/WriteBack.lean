import ModuleLinker.Proofs.Bytes.ReadBack
import ModuleLinker.Proofs.Bytes.WriteBack
import ModuleLinker.Signature.Codec

namespace ModuleLinker

/-! # Signatures, read back and written again

A signature that was written is read back, and one that was read can be written.
-/

/-! ## Signatures, read back

A written signature shows where it ends, so it is read back wherever it stands. The one exception
is an instantiation whose base is no named type: it is written like any other type, but the reader
refuses it.
-/

open Encoding

/-! ## Tokens of types -/

namespace Token

/-- The two low bits of a coded index are the tag, the bits above them the row. -/
theorem toNat_coded {t : Token} {tag : UInt32} (htag : tag.toNat < 4) :
    (t.row <<< 2 ||| tag).toNat = t.row.toNat * 2 ^ 2 + tag.toNat := by
  have hrow := toNat_row t
  simp only [UInt32.toNat_or, UInt32.toNat_shiftLeft, UInt32.reduceToNat, Nat.reduceMod]
  rw [Nat.mod_eq_of_lt (by rw [Nat.shiftLeft_eq]; omega), shiftLeft_or_eq (by omega)]

theorem coded_and_tag {t : Token} {tag : UInt32} (htag : tag.toNat < 4) :
    (t.row <<< 2 ||| tag) &&& 3 = tag := by
  apply UInt32.toNat_inj.mp
  have hmask (x : Nat) : x &&& 2 ^ 2 - 1 = x % 2 ^ 2 := Nat.and_two_pow_sub_one_eq_mod ..
  have hand : ((t.row <<< 2 ||| tag) &&& 3).toNat = (t.row <<< 2 ||| tag).toNat &&& 2 ^ 2 - 1 := rfl
  rw [hand, hmask, toNat_coded htag]
  omega

theorem coded_shiftRight {t : Token} {tag : UInt32} (htag : tag.toNat < 4) :
    (t.row <<< 2 ||| tag) >>> 2 = t.row := by
  apply UInt32.toNat_inj.mp
  rw [UInt32.toNat_shiftRight, toNat_coded htag]
  simp only [UInt32.reduceToNat, Nat.reduceMod, Nat.shiftRight_eq_div_pow]
  omega

/-- Tokens of types are read back; others are not written at all. -/
theorem readsBack_coded (t : Token) : t.encodeCoded.ReadsBack Token.decodeCoded t := by
  have hback := ofRow_table_row t
  unfold encodeCoded codedIndex
  split_ifs with hdef href
  · -- a definition has tag zero
    have hzero : t.row <<< 2 = t.row <<< 2 ||| 0 := by simp
    refine (readsBack_compressed _).last ?_
    rw [hzero, coded_and_tag (by decide), coded_shiftRight (by decide), ← hdef, hback]
    rfl
  · refine (readsBack_compressed _).last ?_
    rw [coded_and_tag (by decide), coded_shiftRight (by decide), ← href, hback]
    rfl
  · intro hfits
    exact nomatch hfits.fault_eq

end Token

/-! ## Types -/

namespace TypeSig

mutual

/-- Whether the base of every instantiation in the type is a named type. -/
def hasNamedBases : TypeSig → Bool
  | .primitive _ => true
  | .classType _ => true
  | .valueType _ => true
  | .array s => s.hasNamedBases
  | .byRef s => s.hasNamedBases
  | .pointer s => s.hasNamedBases
  | .typeParam _ => true
  | .methodParam _ => true
  | .instantiation base arguments => base.isNamed && haveNamedBases arguments

/-- Whether the base of every instantiation in the types is a named type. -/
def haveNamedBases : List TypeSig → Bool
  | [] => true
  | s :: rest => s.hasNamedBases && haveNamedBases rest

end

theorem haveNamedBases_eq_all (ss : List TypeSig) : haveNamedBases ss = ss.all hasNamedBases := by
  induction ss with
  | nil => rfl
  | cons s ss ih => rw [haveNamedBases, List.all_cons, ih]

theorem encodeAll_eq_each (ss : List TypeSig) : encodeAll ss = each encode ss := by
  induction ss with
  | nil => rfl
  | cons s ss ih =>
    rw [encodeAll, ih]
    rfl

/-- A named type has no instantiation inside. -/
theorem hasNamedBases_of_isNamed {s : TypeSig} (h : s.isNamed) : s.hasNamedBases := by
  cases s <;> first | rfl | cases h

theorem length_byte_append (b : UInt8) (e : Encoding) :
    (byte b ++ e).bytes.length = e.bytes.length + 1 := by
  rw [length_append rfl, Nat.add_comm]
  rfl

/-- A written type starts with its code. -/
theorem encode_ne_nil (s : TypeSig) : s.encode.bytes ≠ [] := by
  cases s with
  | instantiation base arguments =>
    unfold encode
    rw [append_assoc, append_assoc]
    exact List.cons_ne_nil _ _
  | _ => exact List.cons_ne_nil _ _

theorem ofCode?_code (p : Primitive) : Primitive.ofCode? p.code = some p := by
  cases p <;> rfl

/-- What a code byte comes before is read with one level less. -/
theorem length_le_of_cons {b : UInt8} {s : TypeSig} {depth : Nat}
    (h : (byte b ++ s.encode).bytes.length ≤ depth + 1) : s.encode.bytes.length ≤ depth := by
  rw [length_byte_append] at h
  omega

/-- The base of an instantiation may be any type when it is written, and is refused unless it is
named. -/
theorem readsIff_instantiation {base : TypeSig} {arguments : List TypeSig} {depth : Nat}
    (hbase : base.encode.ReadsIff (decodeWithin depth) base.hasNamedBases base)
    (harguments : ∀ s ∈ arguments, s.encode.ReadsIff (decodeWithin depth) s.hasNamedBases s) :
    (base.encode ++ (compressed (UInt32.ofNat arguments.length) ++ each encode arguments)).ReadsIff
      (do
        let base ← decodeWithin depth
        if !base.isNamed then Reader.refuse (.instantiationBase (← Reader.position))
        return instantiation base (← Reader.list (decodeWithin depth)))
      (instantiation base arguments).hasNamedBases (instantiation base arguments) := by
  have hlist := readsIff_counted (readsIff_each (g := id) harguments)
    (length_le_each fun s _ => s.encode_ne_nil)
  rw [List.map_id] at hlist
  by_cases hnamed : base.isNamed
  · have hbases : (∀ s ∈ arguments, s.hasNamedBases) ↔ (instantiation base arguments).hasNamedBases := by
      rw [hasNamedBases, haveNamedBases_eq_all, hnamed, Bool.true_and, List.all_eq_true]
    refine .after (hbase.readsBack (hasNamedBases_of_isNamed hnamed)) ?_
    rw [hnamed]
    exact (hlist.map (instantiation base)).imp hbases
  · refine ⟨fun h => absurd (Bool.and_eq_true_iff.1 h).1 hnamed, fun _ => ?_⟩
    -- the base is either refused itself or read and then found to have no name
    by_cases hbases : base.hasNamedBases
    · refine Refused.after (hbase.readsBack hbases) fun _ rest position => ?_
      rw [Bool.not_eq_true] at hnamed
      rw [hnamed]
      exact ⟨_, _, .base position, rfl⟩
    · exact (hbase.refused hbases).before

theorem readsIff_decodeWithin (s : TypeSig) (depth : Nat) (hdepth : s.encode.bytes.length ≤ depth) :
    s.encode.ReadsIff (decodeWithin depth) s.hasNamedBases s := by
  induction depth generalizing s with
  | zero => exact absurd (List.eq_nil_of_length_eq_zero (Nat.le_zero.1 hdepth)) s.encode_ne_nil
  | succ depth ih =>
    refine .of_fits fun hfits => ?_
    unfold decodeWithin
    cases s with
    | primitive p =>
      unfold encode
      refine .of_readsBack rfl ((readsBack_byte p.code).last ?_)
      rw [ofCode?_code]
    | classType t =>
      unfold encode
      refine .of_readsBack rfl ((readsBack_byte _).bind ?_)
      exact (Token.readsBack_coded t).map TypeSig.classType
    | valueType t =>
      unfold encode
      refine .of_readsBack rfl ((readsBack_byte _).bind ?_)
      exact (Token.readsBack_coded t).map TypeSig.valueType
    | array s =>
      unfold encode
      refine .after (readsBack_byte _) ?_
      exact (ih s (length_le_of_cons hdepth)).map TypeSig.array
    | byRef s =>
      unfold encode
      refine .after (readsBack_byte _) ?_
      exact (ih s (length_le_of_cons hdepth)).map TypeSig.byRef
    | pointer s =>
      unfold encode
      refine .after (readsBack_byte _) ?_
      exact (ih s (length_le_of_cons hdepth)).map TypeSig.pointer
    | typeParam n =>
      unfold encode
      refine .of_readsBack rfl ((readsBack_byte _).bind ?_)
      exact (readsBack_compressed n).map TypeSig.typeParam
    | methodParam n =>
      unfold encode
      refine .of_readsBack rfl ((readsBack_byte _).bind ?_)
      exact (readsBack_compressed n).map TypeSig.methodParam
    | instantiation base arguments =>
      -- what is written is a code byte, the base, the number of arguments and the arguments
      unfold encode at hdepth hfits ⊢
      rw [encodeAll_eq_each, append_assoc, append_assoc] at hdepth hfits ⊢
      -- none of the parts has a fault, so their lengths add up
      have hbase := hfits.right.left.fault_eq
      have hcount := hfits.right.right.left.fault_eq
      have hrest := hfits.right.right.right.fault_eq
      rw [length_append rfl, length_append hbase, length_append hcount] at hdepth
      have hone : (byte 0x15).bytes.length = 1 := rfl
      -- base and arguments stand behind the code byte, so one level less holds either
      refine .after (readsBack_byte _) (readsIff_instantiation (ih base (by omega)) ?_)
      intro s hs
      have hle := length_mem_le_each hs hrest
      exact ih s (by omega)

theorem readsIff (s : TypeSig) : s.encode.ReadsIff decode s.hasNamedBases s := by
  -- the reader allows as many levels as bytes are left
  have hdepth (rest : Bytes) : s.encode.bytes.length ≤ (s.encode.bytes ++ rest).length := by simp
  refine ⟨fun hbases hfits rest position => ?_, fun hbases hfits rest position => ?_⟩
  · have h := (readsIff_decodeWithin s _ (hdepth rest)).readsBack hbases hfits rest position
    rwa [decode, Reader.runAt_bind_of_ok (Reader.remaining_runAt _)]
  · have h := (readsIff_decodeWithin s _ (hdepth rest)).refused hbases hfits rest position
    rwa [decode, Reader.runAt_bind_of_ok (Reader.remaining_runAt _)]

end TypeSig

/-! ## Members -/

namespace MethodSig

/-- Whether the base of every instantiation in the signature is a named type. -/
def hasNamedBases (s : MethodSig) : Bool :=
  s.result.hasNamedBases && s.params.all TypeSig.hasNamedBases

/-- The lead byte is none of a field, and tells of the instance and of generic parameters. -/
theorem convention_spec (s : MethodSig) :
    isFieldConvention s.convention = false ∧
      (s.convention &&& genericConvention != 0) = decide (0 < s.genericParams) ∧
      (s.convention &&& thisConvention != 0) = s.hasThis := by
  unfold convention
  by_cases hgeneric : 0 < s.genericParams <;> cases s.hasThis <;> simp [hgeneric] <;> decide

/-- The number of parameters, the result, which is written between that number and the parameters
that it counts, and the parameters. -/
theorem readsIff_types (s : MethodSig) :
    (compressed (UInt32.ofNat s.params.length) ++
        (s.result.encode ++ each TypeSig.encode s.params)).ReadsIff
      (do
        let count ← Reader.count
        let result ← TypeSig.decode
        let params ← Reader.times TypeSig.decode count
        return ⟨s.hasThis, s.genericParams, result, params⟩) s.hasNamedBases s := by
  have hparams := readsIff_each (g := id) fun p (_ : p ∈ s.params) => TypeSig.readsIff p
  rw [List.map_id] at hparams
  have hall := hparams.map fun params => MethodSig.mk s.hasThis s.genericParams s.result params
  refine (readsIff_counted (s.result.readsIff.bind hall) ?_).imp ?_
  · intro hfault
    -- the result, which is not counted, only makes the rest longer
    have hle := length_le_each (fun p _ => TypeSig.encode_ne_nil p) (fault_append.1 hfault).2
    rw [length_append (fault_append.1 hfault).1]
    omega
  · rw [hasNamedBases, Bool.and_eq_true, List.all_eq_true]

/-- What follows the lead byte. -/
def encodeAfter (s : MethodSig) : Encoding :=
  (if 0 < s.genericParams then compressed s.genericParams else empty)
    ++ (compressed (UInt32.ofNat s.params.length) ++ (s.result.encode ++ TypeSig.encodeAll s.params))

theorem encode_eq (s : MethodSig) : s.encode = byte s.convention ++ s.encodeAfter := by
  unfold encode encodeAfter
  rw [append_assoc, append_assoc, append_assoc]

theorem readsIff_decodeAfter (s : MethodSig) :
    s.encodeAfter.ReadsIff (decodeAfter s.convention) s.hasNamedBases s := by
  have htypes := readsIff_types s
  unfold encodeAfter decodeAfter
  rw [TypeSig.encodeAll_eq_each, s.convention_spec.2.1, s.convention_spec.2.2]
  by_cases hgeneric : 0 < s.genericParams
  · simp only [hgeneric, decide_true, if_true]
    exact .after (readsBack_compressed s.genericParams) htypes
  · -- the number is left out where it is zero
    have hzero : s.genericParams = 0 := by
      rw [UInt32.lt_iff_toNat_lt] at hgeneric
      exact UInt32.toNat_inj.mp (by simpa using hgeneric)
    rw [hzero] at htypes ⊢
    exact .after (ReadsBack.pure 0) htypes

theorem readsIff (s : MethodSig) : s.encode.ReadsIff decode s.hasNamedBases s := by
  rw [encode_eq]
  refine .after (readsBack_byte s.convention) ?_
  rw [s.convention_spec.1]
  exact readsIff_decodeAfter s

end MethodSig

namespace MemberSig

/-- Whether the base of every instantiation in the signature is a named type. -/
def hasNamedBases : MemberSig → Bool
  | .field s => s.hasNamedBases
  | .method s => s.hasNamedBases

theorem readsIff (s : MemberSig) : s.encode.ReadsIff decode s.hasNamedBases s := by
  cases s with
  | field s =>
    refine .after (readsBack_byte fieldConvention) ?_
    exact s.readsIff.map MemberSig.field
  | method s =>
    -- the lead byte tells methods from fields, and the rest is read as before
    show s.encode.ReadsIff decode s.hasNamedBases (.method s)
    rw [MethodSig.encode_eq]
    refine .after (readsBack_byte s.convention) ?_
    rw [s.convention_spec.1]
    exact s.readsIff_decodeAfter.map MemberSig.method

end MemberSig

/-! ## Signatures, written again

What was read as a signature is a signature that is written and read back: its instantiations have
named bases, and neither the bits of a coded row that fall off a token nor the bits of a lead byte that
say nothing make it longer.
-/

open Encoding Reader

/-! ## Tokens of types -/

namespace Token

theorem row_ofRow (table : UInt8) (row : UInt32) :
    (ofRow table row).row.toNat = row.toNat % 2 ^ 24 := by
  rw [toNat_row, toNat_ofRow]
  omega

/-- A token keeps at most the row that it was made of, so its coded index is no greater than the one
that was read. -/
theorem coded_ofRow_le {index tag : UInt32} (htag : tag.toNat < 4) (h : index &&& 3 = tag)
    (table : UInt8) :
    ((ofRow table (index >>> 2)).row <<< 2 ||| tag).toNat ≤ index.toNat := by
  have hmask (x : Nat) : x &&& 3 = x % 2 ^ 2 := Nat.and_two_pow_sub_one_eq_mod x 2
  have hlow : tag.toNat = index.toNat % 4 := by
    rw [← h, UInt32.toNat_and]
    exact hmask _
  have hhigh : (index >>> 2).toNat = index.toNat / 4 := by
    simp only [UInt32.toNat_shiftRight, UInt32.reduceToNat, Nat.reduceMod, Nat.shiftRight_eq_div_pow,
      Nat.reducePow]
  rw [toNat_coded htag, row_ofRow, hhigh]
  omega

theorem takes_coded : decodeCoded.Takes fun t n => t.encodeCoded.Within n := by
  unfold decodeCoded
  refine takes_compressed.bind fun index n h => ?_
  dsimp only
  split_ifs with hdef href
  · refine .pure ?_
    have hle := coded_ofRow_le (by decide) hdef Table.typeDef
    rw [UInt32.or_zero] at hle
    rw [encodeCoded, codedIndex, table_ofRow, if_pos rfl]
    exact within_compressed_of_le hle h
  · refine .pure ?_
    have hle := coded_ofRow_le (by decide) href Table.typeRef
    rw [encodeCoded, codedIndex, table_ofRow, if_neg (by decide), if_pos rfl]
    exact within_compressed_of_le hle h
  · exact .refuse

end Token

/-! ## Types -/

namespace TypeSig

/-- An instantiation that was read has a named base. -/
theorem takes_instantiation {depth : Nat}
    (ih : (decodeWithin depth).Takes fun s n => s.encode.Within n ∧ s.hasNamedBases) :
    (do
      let base ← decodeWithin depth
      if !base.isNamed then Reader.refuse (.instantiationBase (← Reader.position))
      return instantiation base (← Reader.list (decodeWithin depth))).Takes
      fun s n => s.encode.Within (1 + n) ∧ s.hasNamedBases := by
  refine ih.bind fun base n₁ hbase => ?_
  by_cases hnamed : base.isNamed
  · rw [hnamed]
    refine (takes_counted ih).map fun arguments n₂ harguments => ⟨?_, ?_⟩
    · rw [encode, encodeAll_eq_each, append_assoc, append_assoc]
      exact (within_byte _).append (hbase.1.append harguments.2.1)
    · rw [hasNamedBases, hnamed, haveNamedBases_eq_all, Bool.true_and, List.all_eq_true]
      exact harguments.2.2
  · rw [Bool.not_eq_true] at hnamed
    rw [hnamed]
    exact takes_position.bind fun _ _ _ => .refused .refuse

theorem takes_decodeWithin (depth : Nat) :
    (decodeWithin depth).Takes fun s n => s.encode.Within n ∧ s.hasNamedBases := by
  induction depth with
  | zero => exact .throw
  | succ depth ih =>
    unfold decodeWithin
    refine takes_byte.bind fun code n h => ?_
    subst h
    split
    case h_1 p hp => exact .pure ⟨within_byte _, rfl⟩
    split
    · exact ih.map fun s m hs => ⟨(within_byte _).append hs.1, hs.2⟩
    · exact ih.map fun s m hs => ⟨(within_byte _).append hs.1, hs.2⟩
    · exact Token.takes_coded.map fun t m ht => ⟨(within_byte _).append ht, rfl⟩
    · exact Token.takes_coded.map fun t m ht => ⟨(within_byte _).append ht, rfl⟩
    · exact takes_compressed.map fun k m hk => ⟨(within_byte _).append hk, rfl⟩
    · exact takes_instantiation ih
    · exact ih.map fun s m hs => ⟨(within_byte _).append hs.1, hs.2⟩
    · exact takes_compressed.map fun k m hk => ⟨(within_byte _).append hk, rfl⟩
    · exact .refuseAt

theorem takes_decode : decode.Takes fun s n => s.encode.Within n ∧ s.hasNamedBases := by
  refine takes_remaining.bind fun depth n h => ?_
  subst h
  simpa only [Nat.zero_add] using takes_decodeWithin depth

end TypeSig

/-! ## Members -/

namespace MethodSig

/-- The number of parameters, the result and the parameters, in the order of reading. -/
theorem takes_types (hasThis : Bool) (generics : UInt32) :
    (do
      let count ← Reader.count
      let result ← TypeSig.decode
      let params ← Reader.times TypeSig.decode count
      return (⟨hasThis, generics, result, params⟩ : MethodSig)).Takes fun s n =>
        s.genericParams = generics ∧
        (compressed (UInt32.ofNat s.params.length) ++
          (s.result.encode ++ each TypeSig.encode s.params)).Within n ∧ s.hasNamedBases := by
  refine takes_count.bind fun count n₁ hcount => TypeSig.takes_decode.bind fun result n₂ hresult => ?_
  refine (takes_times TypeSig.takes_decode count).map fun params n₃ hparams => ⟨rfl, ?_, ?_⟩
  · rw [hparams.1]
    exact hcount.2.append (hresult.1.append hparams.2.1)
  · rw [hasNamedBases, hresult.2, Bool.true_and, List.all_eq_true]
    exact hparams.2.2

/-- Whatever the lead byte was, the one that is written is no longer, and the number of generic
parameters is left out where the lead byte told of it and it was zero. -/
theorem takes_decodeAfter (lead : UInt8) :
    (decodeAfter lead).Takes fun s n => s.encode.Within (1 + n) ∧ s.hasNamedBases := by
  have hencode (s : MethodSig) : s.encode = byte s.convention ++
      ((if 0 < s.genericParams then compressed s.genericParams else .empty) ++
        (compressed (UInt32.ofNat s.params.length) ++ (s.result.encode ++ each TypeSig.encode s.params))) := by
    rw [encode_eq, encodeAfter, TypeSig.encodeAll_eq_each]
  unfold decodeAfter
  split_ifs
  · refine takes_compressed.bind fun generics n hgenerics => (takes_types _ generics).mono ?_
    rintro s m ⟨rfl, hs, hbases⟩
    rw [hencode]
    refine ⟨(within_byte _).append (.append ?_ hs), hbases⟩
    split_ifs
    · exact hgenerics
    · exact Within.empty.mono (Nat.zero_le n)
  · refine (takes_types _ 0).mono ?_
    rintro s m ⟨hzero, hs, hbases⟩
    rw [hencode, hzero, if_neg (by decide), empty_append]
    exact ⟨(within_byte _).append hs, hbases⟩

theorem takes_decode : decode.Takes fun s n => s.encode.Within n ∧ s.hasNamedBases := by
  refine takes_byte.bind fun lead n h => ?_
  subst h
  split_ifs
  · exact .refused .refuse
  · exact takes_decodeAfter lead

end MethodSig

namespace MemberSig

theorem takes_decode : decode.Takes fun s n => s.encode.Within n ∧ s.hasNamedBases := by
  refine takes_byte.bind fun lead n h => ?_
  subst h
  split_ifs
  · exact TypeSig.takes_decode.map fun s m hs => ⟨(within_byte _).append hs.1, hs.2⟩
  · exact (MethodSig.takes_decodeAfter lead).map fun s m hs => hs

end MemberSig

end ModuleLinker
