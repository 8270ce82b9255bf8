import ModuleLinker.Proofs.Bytes.ReadBack

namespace ModuleLinker

/-! # Writing what was read

The reader accepts more than the writer writes: longer forms of an integer than it needs, any byte but
0 for a true value. What it makes of them can be written again, in no more bytes than were read.
`r.Takes q` says of a reader that whenever it answers `v` and has read `n` bytes for it, `q v n` holds;
`e.Within n` says of a written form that it has no fault and at most `n` bytes.
-/

/-! ## The room of a written form -/

namespace Encoding

/-- The form can be written, in at most `n` bytes. -/
structure Within (e : Encoding) (n : Nat) : Prop where
  fault_eq : e.fault = none
  length_le : e.bytes.length ≤ n

namespace Within

variable {a b : Encoding} {m n : Nat}

theorem empty : Encoding.empty.Within 0 := ⟨rfl, le_rfl⟩

theorem append (ha : a.Within m) (hb : b.Within n) : (a ++ b).Within (m + n) := by
  refine ⟨fault_append.2 ⟨ha.fault_eq, hb.fault_eq⟩, ?_⟩
  rw [length_append ha.fault_eq]
  exact Nat.add_le_add ha.length_le hb.length_le

theorem mono (ha : a.Within m) (h : m ≤ n) : a.Within n := ⟨ha.fault_eq, ha.length_le.trans h⟩

end Within

theorem within_byte (b : UInt8) : (byte b).Within 1 := ⟨rfl, le_rfl⟩

theorem within_bool (b : Bool) : (bool b).Within 1 := ⟨rfl, le_rfl⟩

theorem within_u16 (n : UInt16) : (u16 n).Within 2 := ⟨rfl, le_rfl⟩

theorem within_u32 (n : UInt32) : (u32 n).Within 4 := ⟨rfl, le_rfl⟩

theorem within_u64 (n : UInt64) : (u64 n).Within 8 := ⟨rfl, le_rfl⟩

/-- A number takes the shortest of the three compressed forms that hold it. -/
theorem within_compressed {n : UInt32} :
    (n.toNat ≤ 0x7F → (compressed n).Within 1) ∧ (n.toNat ≤ 0x3FFF → (compressed n).Within 2) ∧
      (n.toNat ≤ 0x1FFFFFFF → (compressed n).Within 4) := by
  have hone : n ≤ 0x7F ↔ n.toNat ≤ 0x7F := UInt32.le_iff_toNat_le
  have htwo : n ≤ 0x3FFF ↔ n.toNat ≤ 0x3FFF := UInt32.le_iff_toNat_le
  have hfour : n ≤ 0x1FFFFFFF ↔ n.toNat ≤ 0x1FFFFFFF := UInt32.le_iff_toNat_le
  unfold compressed
  refine ⟨fun h => ?_, fun h => ?_, fun h => ?_⟩
  · rw [if_pos (hone.2 h)]
    exact within_byte _
  · split_ifs with h₁ h₂ h₃
    · exact (within_byte _).mono (by omega)
    · exact ⟨rfl, le_rfl⟩
    all_goals exact absurd (htwo.2 h) h₂
  · split_ifs with h₁ h₂ h₃
    · exact (within_byte _).mono (by omega)
    · exact ⟨rfl, by simp⟩
    · exact ⟨rfl, le_rfl⟩
    · exact absurd (hfour.2 h) h₃

/-- A smaller number takes no more bytes. -/
theorem within_compressed_of_le {m n : UInt32} {k : Nat} (hle : m.toNat ≤ n.toNat)
    (hn : (compressed n).Within k) : (compressed m).Within k := by
  have hone : n ≤ 0x7F ↔ n.toNat ≤ 0x7F := UInt32.le_iff_toNat_le
  have htwo : n ≤ 0x3FFF ↔ n.toNat ≤ 0x3FFF := UInt32.le_iff_toNat_le
  have hfour : n ≤ 0x1FFFFFFF ↔ n.toNat ≤ 0x1FFFFFFF := UInt32.le_iff_toNat_le
  unfold compressed at hn
  split_ifs at hn with h₁ h₂ h₃
  · exact (within_compressed.1 (hle.trans (hone.1 h₁))).mono hn.length_le
  · exact (within_compressed.2.1 (hle.trans (htwo.1 h₂))).mono hn.length_le
  · exact (within_compressed.2.2 (hle.trans (hfour.1 h₃))).mono hn.length_le
  · exact nomatch hn.fault_eq

/-- Each group of the seven-bit form holds seven bits. -/
theorem length_sevenBit_le {k : Nat} (hk : 0 < k) {n : UInt32} (hn : n.toNat < 2 ^ (7 * k)) :
    (sevenBit n).length ≤ k := by
  induction k generalizing n with
  | zero => exact absurd hk (Nat.lt_irrefl 0)
  | succ k ih =>
    rw [sevenBit]
    split_ifs with hlast
    · exact Nat.succ_le_succ (Nat.zero_le _)
    · have hlast' : ¬n.toNat < 128 := fun h => hlast (UInt32.lt_iff_toNat_lt.2 h)
      have hhigh : (n >>> 7).toNat = n.toNat / 128 := by
        simp only [UInt32.toNat_shiftRight, UInt32.reduceToNat, Nat.reduceMod,
          Nat.shiftRight_eq_div_pow, Nat.reducePow]
      have hpow : 2 ^ (7 * (k + 1)) = 128 * 2 ^ (7 * k) := by rw [Nat.mul_succ, Nat.pow_add]; ring
      have hpos : 0 < k := by
        rcases Nat.eq_zero_or_pos k with rfl | h
        · exact absurd (by simpa using hn) hlast'
        · exact h
      refine Nat.succ_le_succ (ih hpos ?_)
      rw [hhigh]
      exact Nat.div_lt_of_lt_mul (hpow ▸ hn)

end Encoding

/-! ## Answers of readers -/

namespace Reader

theorem runAt_bind_eq_ok {r : Reader α} {f : α → Reader β} {c c'' : Cursor} {w : β}
    (h : (r >>= f).runAt c = (.ok w, c'')) :
    ∃ v c', r.runAt c = (.ok v, c') ∧ (f v).runAt c' = (.ok w, c'') := by
  rw [runAt_bind] at h
  rcases hread : r.runAt c with ⟨fault | v, c'⟩
  · rw [hread] at h
    exact nomatch h
  · rw [hread] at h
    exact ⟨v, c', rfl, h⟩

theorem runAt_of_run {r : Reader α} {data : Bytes} {v : α} (h : r.run data = .ok v) :
    ∃ c, r.runAt (.start data) = (.ok v, c) :=
  ⟨_, Prod.ext h rfl⟩

/-- Whenever the reader answers `v` after reading `n` bytes, `q v n` holds. -/
def Takes (r : Reader α) (q : α → Nat → Prop) : Prop :=
  ∀ c v c', r.runAt c = (.ok v, c') → ∃ n, c.rest.length = n + c'.rest.length ∧ q v n

namespace Takes

variable {r : Reader α} {f : α → Reader β} {q : α → Nat → Prop} {p : β → Nat → Prop}

theorem pure {v : α} (h : q v 0) : (Pure.pure v : Reader α).Takes q := by
  intro c v' c' hrun
  cases hrun
  exact ⟨0, (Nat.zero_add _).symm, h⟩

/-- The bytes of two readers one after another add up. -/
theorem bind (hr : r.Takes q) (hf : ∀ v n, q v n → (f v).Takes fun w m => p w (n + m)) :
    (r >>= f).Takes p := by
  intro c w c'' hrun
  obtain ⟨v, c', hread, hbehind⟩ := runAt_bind_eq_ok hrun
  obtain ⟨n, hn, hq⟩ := hr c v c' hread
  obtain ⟨m, hm, hp⟩ := hf v n hq c' w c'' hbehind
  exact ⟨n + m, by omega, hp⟩

theorem map {g : α → β} (hr : r.Takes q) (hg : ∀ v n, q v n → p (g v) n) :
    (r >>= fun v => Pure.pure (g v)).Takes p :=
  hr.bind fun v n hq => .pure (hg v n hq)

theorem mono {q' : α → Nat → Prop} (hr : r.Takes q) (h : ∀ v n, q v n → q' v n) : r.Takes q' := by
  intro c v c' hrun
  obtain ⟨n, hn, hq⟩ := hr c v c' hrun
  exact ⟨n, hn, h v n hq⟩

/-- A reader that gives up has no answer. -/
theorem throw {fault : Fault} : (MonadExcept.throw fault : Reader α).Takes q := by
  intro c v c' hrun
  exact nomatch hrun

theorem refuse {cause : Malformation} : (Reader.refuse cause : Reader α).Takes q := throw

end Takes

theorem takes_position : position.Takes fun _ n => n = 0 := by
  intro c v c' hrun
  cases hrun
  exact ⟨0, (Nat.zero_add _).symm, rfl⟩

theorem takes_remaining : remaining.Takes fun _ n => n = 0 := by
  intro c v c' hrun
  cases hrun
  exact ⟨0, (Nat.zero_add _).symm, rfl⟩

/-- A refusal that names the place is one, too. -/
theorem Takes.refuseAt {cause : Nat → Malformation} {q : α → Nat → Prop} :
    (do Reader.refuse (cause (← position)) : Reader α).Takes q :=
  takes_position.bind fun _ _ _ => .refuse

/-- Behind a refusal nothing is read. -/
theorem Takes.refused {r : Reader α} {f : α → Reader β} {q : β → Nat → Prop}
    (hr : r.Takes fun _ _ => False) : (r >>= f).Takes q :=
  hr.bind fun _ _ h => h.elim

/-! ## Integers of a fixed width -/

theorem takes_byte : byte.Takes fun _ n => n = 1 := by
  intro c v c' hrun
  rcases c with ⟨_ | ⟨b, rest⟩, position⟩
  · exact nomatch hrun
  · cases hrun
    exact ⟨1, Nat.add_comm .., rfl⟩

theorem takes_bytes (k : Nat) : (bytes k).Takes fun v n => v.length = k ∧ n = k := by
  intro c v c' hrun
  rw [bytes_runAt_eq] at hrun
  split_ifs at hrun with hle
  · cases hrun
    refine ⟨k, ?_, List.length_take_of_le hle, rfl⟩
    rw [List.length_drop]
    omega
  · exact nomatch hrun

theorem takes_u16 : u16.Takes fun v n => (Encoding.u16 v).Within n :=
  (takes_bytes 2).map fun _ _ h => h.2 ▸ Encoding.within_u16 _

theorem takes_u32 : u32.Takes fun v n => (Encoding.u32 v).Within n :=
  (takes_bytes 4).map fun _ _ h => h.2 ▸ Encoding.within_u32 _

theorem takes_u64 : u64.Takes fun v n => (Encoding.u64 v).Within n :=
  (takes_bytes 8).map fun _ _ h => h.2 ▸ Encoding.within_u64 _

theorem takes_i32 : i32.Takes fun v n => (Encoding.i32 v).Within n :=
  takes_u32.map fun _ _ h => h

theorem takes_i64 : i64.Takes fun v n => (Encoding.i64 v).Within n :=
  takes_u64.map fun _ _ h => h

theorem takes_bool : bool.Takes fun v n => (Encoding.bool v).Within n :=
  takes_byte.map fun _ _ h => h ▸ Encoding.within_bool _

theorem takes_token : token.Takes fun t n => (Encoding.token t).Within n :=
  takes_u32.map fun _ _ h => h

theorem takes_token? :
    token?.Takes fun t n => (Encoding.token? t).Within n ∧ Token.orNone t = t := by
  refine takes_token.map fun t n h => ?_
  split_ifs with hnull
  · exact ⟨⟨rfl, h.length_le⟩, rfl⟩
  · exact ⟨h, by simp [Token.orNone, Option.filter, hnull]⟩

/-! ## Integers of a variable width -/

/-- A shifted number has as many more bits, less those that fall off the word. -/
theorem toNat_shiftLeft_lt {n : UInt32} {i s : Nat} (hs : s < 32) (hn : n.toNat < 2 ^ i) :
    (n <<< UInt32.ofNat s).toNat < 2 ^ (i + s) := by
  have hshift : (UInt32.ofNat s).toNat % 32 = s := by
    rw [UInt32.toNat_ofNat', Nat.mod_eq_of_lt (b := 2 ^ 32) (by omega), Nat.mod_eq_of_lt hs]
  rw [UInt32.toNat_shiftLeft, hshift, Nat.shiftLeft_eq, Nat.pow_add]
  exact lt_of_le_of_lt (Nat.mod_le ..) (Nat.mul_lt_mul_of_pos_right hn (Nat.two_pow_pos s))

theorem toNat_or_lt {m n : UInt32} {i : Nat} (hm : m.toNat < 2 ^ i) (hn : n.toNat < 2 ^ i) :
    (m ||| n).toNat < 2 ^ i := by
  rw [UInt32.toNat_or]
  exact Nat.or_lt_two_pow hm hn

/-- A lead byte without the high bit is a number of seven bits. -/
theorem lead_clear : ∀ h < 256, UInt8.ofNat h &&& 0x80 = 0 → h ≤ 0x7F := by
  decide +kernel

/-- The compressed form is read from as many bytes as hold the number. -/
theorem takes_compressed : compressed.Takes fun v n => (Encoding.compressed v).Within n := by
  have hbyte (b : UInt8) : b.toUInt32.toNat < 2 ^ 8 := b.toNat_lt
  unfold compressed
  refine takes_byte.bind fun lead n₁ h₁ => ?_
  subst h₁
  split_ifs with hone htwo hfour
  · refine .pure (Encoding.within_compressed.1 ?_)
    exact lead_clear lead.toNat lead.toNat_lt (by rwa [UInt8.ofNat_toNat])
  · refine takes_byte.bind fun low n₂ h₂ => .pure ?_
    subst h₂
    refine Encoding.within_compressed.2.1 (Nat.le_of_lt_succ ?_)
    -- six bits and eight
    have hlead : (lead.toUInt32 &&& 0x3F).toNat < 2 ^ 6 := Nat.and_lt_two_pow _ (by decide)
    exact toNat_or_lt (i := 14) (toNat_shiftLeft_lt (s := 8) (by decide) hlead)
      ((hbyte low).trans (by decide))
  · refine takes_byte.bind fun b₁ n₂ h₂ => takes_byte.bind fun b₂ n₃ h₃ =>
      takes_byte.bind fun b₃ n₄ h₄ => .pure ?_
    subst h₂ h₃ h₄
    refine Encoding.within_compressed.2.2 (Nat.le_of_lt_succ ?_)
    -- five bits and three times eight
    have hlead : (lead.toUInt32 &&& 0x1F).toNat < 2 ^ 5 := Nat.and_lt_two_pow _ (by decide)
    have h₁ := toNat_shiftLeft_lt (s := 16) (by decide) (hbyte b₁)
    have h₂ := toNat_shiftLeft_lt (s := 8) (by decide) (hbyte b₂)
    refine toNat_or_lt (i := 29) (toNat_or_lt (toNat_or_lt ?_ ?_) ?_) ?_
    · exact toNat_shiftLeft_lt (s := 24) (by decide) hlead
    · exact h₁.trans (by decide)
    · exact h₂.trans (by decide)
    · exact (hbyte b₃).trans (by decide)
  · exact .refuse

/-- Groups that were read hold seven bits each, beside what was read before them. -/
theorem takes_sevenBitGroups (groups shift : Nat) (value : UInt32) (hgroups : shift + 7 * groups = 35)
    (hvalue : value.toNat < 2 ^ shift) :
    (sevenBitGroups groups shift value).Takes fun v n => 0 < n ∧ v.toNat < 2 ^ (shift + 7 * n) := by
  induction groups generalizing shift value with
  | zero => exact .refuse
  | succ groups ih =>
    unfold sevenBitGroups
    refine takes_byte.bind fun b n h => ?_
    subst h
    dsimp only
    have hgroup : (b &&& 0x7F).toUInt32.toNat < 2 ^ 7 := Nat.and_lt_two_pow _ (by decide)
    have hlow : value.toNat < 2 ^ (7 + shift) :=
      hvalue.trans_le (Nat.pow_le_pow_right (by decide) (by omega))
    have hnext := toNat_or_lt hlow (toNat_shiftLeft_lt (s := shift) (by omega) hgroup)
    split_ifs with hlast
    · refine .pure ⟨Nat.one_pos, ?_⟩
      rwa [Nat.add_comm 7] at hnext
    · refine (ih (shift + 7) _ (by omega) ?_).mono fun v m h => ⟨by omega, ?_⟩
      · rwa [Nat.add_comm 7] at hnext
      · have hsum : shift + 7 * (1 + m) = shift + 7 + 7 * m := by ring
        rw [hsum]
        exact h.2

theorem takes_sevenBit : sevenBit.Takes fun v n => (Encoding.sevenBit v).length ≤ n := by
  refine (takes_sevenBitGroups 5 0 0 rfl (by decide)).mono fun v n h => ?_
  rw [Nat.zero_add] at h
  exact Encoding.length_sevenBit_le h.1 h.2

/-! ## Strings of bytes and texts -/

theorem takes_blob : blob.Takes fun b n => (Encoding.blob b).Within n := by
  refine takes_sevenBit.bind fun v n h => (takes_bytes v.toNat).mono fun b m hb => ⟨rfl, ?_⟩
  have hcount : UInt32.ofNat b.length = v := by rw [hb.1, UInt32.ofNat_toNat]
  rw [Encoding.blob, hcount, Encoding.bytes_ofBytes, List.length_append]
  omega

/-- A text is spelled by the bytes that it was read from. -/
theorem encode_of_decode {spelled : Bytes} {s : String} (h : Utf8.decode spelled = .ok s) :
    Utf8.encode s = spelled := by
  unfold Utf8.decode String.fromUTF8? at h
  -- bytes that are no text have not been decoded
  split_ifs at h with hvalid
  cases h
  rfl

theorem takes_text : text.Takes fun s n => (Encoding.text s).Within n := by
  refine takes_blob.bind fun spelled n h => ?_
  split
  case h_1 s hs =>
    refine .pure ?_
    rw [Encoding.text, encode_of_decode hs]
    exact h
  case h_2 => exact .refuseAt

/-! ## Lists -/

/-- A number of elements is written in no more bytes than it was read from. -/
theorem takes_count :
    count.Takes fun k n => k < UInt32.size ∧ (Encoding.compressed (UInt32.ofNat k)).Within n := by
  unfold count
  refine takes_compressed.bind fun v n h => takes_remaining.bind fun left m hm => ?_
  subst hm
  split_ifs
  · exact takes_position.bind fun _ _ _ => .refuse
  · refine .pure ⟨v.toNat_lt, ?_⟩
    rw [UInt32.ofNat_toNat]
    exact h

section Lists

variable {element : Reader α} {encode : α → Encoding} {q : α → Prop}

theorem takes_times (h : element.Takes fun v n => (encode v).Within n ∧ q v) (k : Nat) :
    (times element k).Takes fun vs n =>
      vs.length = k ∧ (Encoding.each encode vs).Within n ∧ ∀ v ∈ vs, q v := by
  induction k with
  | zero => exact .pure ⟨rfl, .empty, nofun⟩
  | succ k ih =>
    refine h.bind fun v n hv => ih.map fun vs m hvs => ⟨?_, ?_, ?_⟩
    · rw [List.length_cons, hvs.1]
    · exact hv.1.append hvs.2.1
    · exact List.forall_mem_cons.2 ⟨hv.2, hvs.2.2⟩

/-- A counted list of elements that can be written again can be written again. -/
theorem takes_counted (h : element.Takes fun v n => (encode v).Within n ∧ q v) :
    (list element).Takes fun vs n => vs.length < UInt32.size ∧
      (Encoding.compressed (UInt32.ofNat vs.length) ++ Encoding.each encode vs).Within n ∧
      ∀ v ∈ vs, q v := by
  refine takes_count.bind fun k n hk => (takes_times h k).mono fun vs m hvs => ?_
  rw [hvs.1]
  exact ⟨hk.1, hk.2.append hvs.2.1, hvs.2.2⟩

theorem takes_list (h : element.Takes fun v n => (encode v).Within n ∧ q v) :
    (list element).Takes fun vs n => (Encoding.list encode vs).Within n ∧ ∀ v ∈ vs, q v := by
  refine (takes_counted h).mono fun vs n hvs => ⟨?_, hvs.2.2⟩
  rw [Encoding.list, Encoding.count, if_pos hvs.1]
  exact hvs.2.1

/-- A counted list of elements of which nothing more is asked. -/
theorem takes_plainList (h : element.Takes fun v n => (encode v).Within n) :
    (list element).Takes fun vs n => (Encoding.list encode vs).Within n :=
  (takes_list (q := fun _ => True) (h.mono fun _ _ hv => ⟨hv, trivial⟩)).mono fun _ _ hvs => hvs.1

end Lists

end Reader

end ModuleLinker
