import Mathlib.Algebra.BigOperators.Fin
import ModuleLinker.Proofs.Bytes.WriteBack

namespace ModuleLinker

/-! # Groups of seven bits

Groups of seven bits can say a number of any size, while the reader answers with a word of 32 bits. It takes
five groups at most, and these have 35 bits: three bits of the fifth group fall off the word. So a number
that is too large is noticed if it takes a sixth group, and otherwise read as a smaller one.
-/

open Finset

namespace Reader

/-- The number that bytes say in groups of seven bits, the low group first. -/
def groupsValue (bytes : Bytes) : Nat :=
  ∑ i : Fin bytes.length, bytes[i].toNat % 128 * 2 ^ (7 * i.val)

/-- Bytes that are one number in groups of seven bits: the high bit of a byte tells that more follow, and
the last byte is the only one without it. -/
inductive SevenBitForm : Bytes → Prop where
  | last {b : UInt8} (h : b.toNat < 128) : SevenBitForm [b]
  | more {b : UInt8} {rest : Bytes} (h : 128 ≤ b.toNat) (hrest : SevenBitForm rest) :
    SevenBitForm (b :: rest)

/-! ## The number that groups say -/

theorem groupsValue_nil : groupsValue [] = 0 := rfl

theorem groupsValue_cons (b : UInt8) (rest : Bytes) :
    groupsValue (b :: rest) = b.toNat % 128 + 128 * groupsValue rest := by
  have hshift (i : Fin rest.length) : rest[i].toNat % 128 * 2 ^ (7 * (i.val + 1)) =
      128 * (rest[i].toNat % 128 * 2 ^ (7 * i.val)) := by
    rw [Nat.mul_succ, Nat.pow_add]
    ring
  have hsum : groupsValue (b :: rest) = b.toNat % 128 * 2 ^ (7 * 0) +
      ∑ i : Fin rest.length, rest[i].toNat % 128 * 2 ^ (7 * (i.val + 1)) := Fin.sum_univ_succ _
  rw [hsum, sum_congr rfl fun i _ => hshift i, ← mul_sum]
  simp [groupsValue]

theorem SevenBitForm.ne_nil {taken : Bytes} (h : SevenBitForm taken) : taken ≠ [] := by
  cases h <;> exact List.cons_ne_nil _ _

/-- Bytes start with such a number, unless all of them tell that more follow. -/
theorem exists_sevenBitForm (bytes : Bytes) :
    (∃ taken rest, bytes = taken ++ rest ∧ SevenBitForm taken) ∨ ∀ b ∈ bytes, 128 ≤ b.toNat := by
  induction bytes with
  | nil => exact .inr nofun
  | cons b bytes ih =>
    by_cases hlast : b.toNat < 128
    · exact .inl ⟨[b], bytes, rfl, .last hlast⟩
    · have hmore : 128 ≤ b.toNat := Nat.le_of_not_lt hlast
      rcases ih with ⟨taken, rest, rfl, htaken⟩ | hall
      · exact .inl ⟨b :: taken, rest, rfl, .more hmore htaken⟩
      · exact .inr (List.forall_mem_cons.2 ⟨hmore, hall⟩)

/-- Five groups say a number of 32 bits exactly if the fifth has no more than four bits. -/
theorem groupsValue_lt_iff {taken : Bytes} (hlength : taken.length ≤ 5) :
    groupsValue taken < 2 ^ 32 ↔ ∀ b ∈ taken[4]?, b.toNat % 128 < 16 := by
  rcases taken with _ | ⟨b₀, _ | ⟨b₁, _ | ⟨b₂, _ | ⟨b₃, _ | ⟨b₄, _ | ⟨b₅, rest⟩⟩⟩⟩⟩⟩
  all_goals simp only [groupsValue_cons, groupsValue_nil, List.length_cons, List.length_nil] at hlength ⊢
  all_goals simp
  all_goals omega

/-! ## Reading groups -/

theorem and_128_eq_zero_iff (b : UInt8) : b &&& 0x80 = 0 ↔ b.toNat < 128 := by
  constructor
  · intro h
    exact Nat.lt_succ_of_le (lead_clear b.toNat b.toNat_lt (by rwa [UInt8.ofNat_toNat]))
  · intro h
    have hclear := Encoding.lead_one b.toNat h
    rwa [UInt8.ofNat_toNat] at hclear

theorem toNat_and_127 (b : UInt8) : (b &&& 0x7F).toUInt32.toNat = b.toNat % 128 := by
  have hmask : b.toNat &&& 127 = b.toNat % 2 ^ 7 := Nat.and_two_pow_sub_one_eq_mod b.toNat 7
  rw [UInt8.toNat_toUInt32, UInt8.toNat_and]
  exact hmask

/-- A group joins those below it, and what does not fit into the word falls off. -/
theorem toNat_or_shiftLeft {value group : UInt32} {shift : Nat} (hshift : shift < 32)
    (hvalue : value.toNat < 2 ^ shift) :
    (value ||| group <<< UInt32.ofNat shift).toNat =
      (value.toNat + 2 ^ shift * group.toNat) % 2 ^ 32 := by
  have hamount : (UInt32.ofNat shift).toNat % 32 = shift := by
    rw [UInt32.toNat_ofNat', Nat.mod_eq_of_lt (b := 2 ^ 32) (by omega), Nat.mod_eq_of_lt hshift]
  have hword : 2 ^ 32 = 2 ^ (32 - shift) * 2 ^ shift := by
    rw [← Nat.pow_add]
    congr 1
    omega
  -- the bits of the group that stay
  have hkept : group.toNat <<< shift % 2 ^ 32 = (group.toNat % 2 ^ (32 - shift)) <<< shift := by
    rw [Nat.shiftLeft_eq, Nat.shiftLeft_eq, hword, Nat.mul_mod_mul_right]
  have hlow : (value.toNat + 2 ^ shift * group.toNat) % 2 ^ shift = value.toNat := by
    rw [Nat.add_mul_mod_self_left, Nat.mod_eq_of_lt hvalue]
  have hhigh : (value.toNat + 2 ^ shift * group.toNat) / 2 ^ shift = group.toNat := by
    rw [Nat.add_mul_div_left _ _ (Nat.two_pow_pos shift), Nat.div_eq_of_lt hvalue, Nat.zero_add]
  rw [UInt32.toNat_or, UInt32.toNat_shiftLeft, hamount, hkept, Nat.or_comm, shiftLeft_or_eq hvalue,
    hword, Nat.mul_comm (2 ^ (32 - shift)), Nat.mod_mul, hlow, hhigh]
  ring

theorem byte_runAt (b : UInt8) (rest : Bytes) (position : Nat) :
    byte.runAt ⟨b :: rest, position⟩ = (.ok b, ⟨rest, position + 1⟩) := rfl

/-- A group that is read is the last one, or others are read behind it. -/
theorem sevenBitGroups_runAt (groups shift : Nat) (value : UInt32) (b : UInt8) (rest : Bytes)
    (position : Nat) :
    (sevenBitGroups (groups + 1) shift value).runAt ⟨b :: rest, position⟩ =
      if b.toNat < 128 then
        (.ok (value ||| (b &&& 0x7F).toUInt32 <<< UInt32.ofNat shift), ⟨rest, position + 1⟩)
      else
        (sevenBitGroups groups (shift + 7) (value ||| (b &&& 0x7F).toUInt32 <<< UInt32.ofNat shift)).runAt
          ⟨rest, position + 1⟩ := by
  rw [sevenBitGroups, runAt_bind_of_ok (byte_runAt b rest position)]
  dsimp only
  by_cases hlast : b.toNat < 128
  · rw [if_pos hlast, if_pos ((and_128_eq_zero_iff b).2 hlast)]
    rfl
  · rw [if_neg hlast, if_neg fun h => hlast ((and_128_eq_zero_iff b).1 h)]

/-- A number of no more groups than are taken is read up to what the word holds of it. -/
theorem sevenBitGroups_answers {taken : Bytes} (htaken : SevenBitForm taken) {groups shift : Nat}
    {value : UInt32} (hgroups : shift + 7 * groups = 35) (hlength : taken.length ≤ groups)
    (hvalue : value.toNat < 2 ^ shift) (rest : Bytes) (position : Nat) :
    (sevenBitGroups groups shift value).runAt ⟨taken ++ rest, position⟩ =
      (.ok (UInt32.ofNat (value.toNat + 2 ^ shift * groupsValue taken)),
        ⟨rest, position + taken.length⟩) := by
  induction htaken generalizing groups shift value position with
  | @last b hlast =>
    obtain ⟨groups, rfl⟩ : ∃ n, groups = n + 1 := ⟨groups - 1, by simp at hlength; omega⟩
    rw [List.singleton_append, sevenBitGroups_runAt, if_pos hlast]
    congr 2
    apply UInt32.toNat_inj.mp
    rw [toNat_or_shiftLeft (by omega) hvalue, toNat_and_127, groupsValue_cons, groupsValue_nil,
      UInt32.toNat_ofNat']
    rfl
  | @more b taken hmore htaken ih =>
    have hpos : 0 < taken.length := List.length_pos_iff.2 htaken.ne_nil
    rw [List.length_cons] at hlength
    obtain ⟨groups, rfl⟩ : ∃ n, groups = n + 1 := ⟨groups - 1, by omega⟩
    -- another group follows, so this one is not the fifth and nothing of it falls off
    have hroom : 2 ^ (shift + 7) ≤ 2 ^ 32 := Nat.pow_le_pow_right (by decide) (by omega)
    have hgroup : b.toNat % 128 < 2 ^ 7 := Nat.mod_lt _ (by decide)
    have hjoined : value.toNat + 2 ^ shift * (b.toNat % 128) < 2 ^ (shift + 7) := by
      calc value.toNat + 2 ^ shift * (b.toNat % 128)
          < 2 ^ shift + 2 ^ shift * (b.toNat % 128) := Nat.add_lt_add_right hvalue _
        _ = 2 ^ shift * (b.toNat % 128 + 1) := by ring
        _ ≤ 2 ^ shift * 2 ^ 7 := Nat.mul_le_mul_left _ hgroup
        _ = 2 ^ (shift + 7) := (Nat.pow_add ..).symm
    have hnext : (value ||| (b &&& 0x7F).toUInt32 <<< UInt32.ofNat shift).toNat =
        value.toNat + 2 ^ shift * (b.toNat % 128) := by
      rw [toNat_or_shiftLeft (by omega) hvalue, toNat_and_127, Nat.mod_eq_of_lt (hjoined.trans_le hroom)]
    rw [List.cons_append, sevenBitGroups_runAt, if_neg (Nat.not_lt.2 hmore),
      ih (by omega) (by omega) (hnext ▸ hjoined), hnext, groupsValue_cons, Nat.pow_add]
    congr 2
    · congr 1
      ring
    · rw [List.length_cons]
      omega

/-- Where every group that is taken tells that more follow, the number is refused. -/
theorem sevenBitGroups_overflows {lead : Bytes} (hlead : ∀ b ∈ lead, 128 ≤ b.toNat) (shift : Nat)
    (value : UInt32) (rest : Bytes) (position : Nat) :
    (sevenBitGroups lead.length shift value).runAt ⟨lead ++ rest, position⟩ =
      (.error (.malformed (.sevenBitOverflow (shift + 7 * lead.length))),
        ⟨rest, position + lead.length⟩) := by
  induction lead generalizing shift value position with
  | nil => rfl
  | cons b lead ih =>
    obtain ⟨hb, hlead⟩ := List.forall_mem_cons.1 hlead
    rw [List.length_cons, List.cons_append, sevenBitGroups_runAt, if_neg (Nat.not_lt.2 hb), ih hlead]
    congr 2
    · congr 2
      omega
    · omega

/-- Where the bytes end before the number does, it is refused. -/
theorem sevenBitGroups_runsOut {lead : Bytes} (hlead : ∀ b ∈ lead, 128 ≤ b.toNat) {groups : Nat}
    (hlength : lead.length < groups) (shift : Nat) (value : UInt32) (position : Nat) :
    (sevenBitGroups groups shift value).runAt ⟨lead, position⟩ =
      (.error .outOfBounds, ⟨[], position + lead.length⟩) := by
  induction lead generalizing groups shift value position with
  | nil =>
    obtain ⟨groups, rfl⟩ : ∃ n, groups = n + 1 := ⟨groups - 1, by simp at hlength; omega⟩
    rfl
  | cons b lead ih =>
    rw [List.length_cons] at hlength
    obtain ⟨groups, rfl⟩ : ∃ n, groups = n + 1 := ⟨groups - 1, by omega⟩
    obtain ⟨hb, hlead⟩ := List.forall_mem_cons.1 hlead
    rw [sevenBitGroups_runAt, if_neg (Nat.not_lt.2 hb), ih hlead (by omega), List.length_cons]
    congr 2
    omega

/-! ## The reader -/

theorem sevenBit_answers {taken : Bytes} (htaken : SevenBitForm taken) (hlength : taken.length ≤ 5)
    (rest : Bytes) (position : Nat) :
    sevenBit.runAt ⟨taken ++ rest, position⟩ =
      (.ok (UInt32.ofNat (groupsValue taken)), ⟨rest, position + taken.length⟩) := by
  have hrun := @sevenBitGroups_answers taken htaken 5 0 0 rfl hlength (by decide) rest position
  have hvalue : (0 : UInt32).toNat + 2 ^ 0 * groupsValue taken = groupsValue taken := by simp
  rwa [hvalue] at hrun

/-- Five groups that tell that more follow are more than the word holds. -/
theorem sevenBit_overflows {c : Cursor} (hlength : 5 ≤ c.rest.length)
    (hlead : ∀ b ∈ c.rest.take 5, 128 ≤ b.toNat) :
    sevenBit.runAt c =
      (.error (.malformed (.sevenBitOverflow 35)), ⟨c.rest.drop 5, c.position + 5⟩) := by
  have hfive : (c.rest.take 5).length = 5 := List.length_take_of_le hlength
  have hrun := sevenBitGroups_overflows hlead 0 0 (c.rest.drop 5) c.position
  rwa [hfive, List.take_append_drop] at hrun

theorem sevenBit_runsOut {c : Cursor} (hlength : c.rest.length < 5) (hlead : ∀ b ∈ c.rest, 128 ≤ b.toNat) :
    sevenBit.runAt c = (.error .outOfBounds, ⟨[], c.position + c.rest.length⟩) :=
  sevenBitGroups_runsOut hlead hlength 0 0 c.position

/-- Before its last byte, a number tells that more bytes follow. -/
theorem SevenBitForm.le_of_mem_take {taken : Bytes} (h : SevenBitForm taken) {n : Nat}
    (hn : n < taken.length) : ∀ b ∈ taken.take n, 128 ≤ b.toNat := by
  induction h generalizing n with
  | last hlast =>
    obtain rfl : n = 0 := by simpa using hn
    exact nofun
  | more hmore hrest ih =>
    rcases n with _ | n
    · exact nofun
    · exact List.forall_mem_cons.2 ⟨hmore, ih (Nat.lt_of_succ_lt_succ hn)⟩

/-- A number of more than five groups is refused. -/
theorem sevenBit_refuses {taken : Bytes} (htaken : SevenBitForm taken) (hlength : 5 < taken.length)
    {c : Cursor} {rest : Bytes} (hrest : c.rest = taken ++ rest) :
    sevenBit.runAt c =
      (.error (.malformed (.sevenBitOverflow 35)), ⟨c.rest.drop 5, c.position + 5⟩) := by
  apply sevenBit_overflows
  · rw [hrest, List.length_append]
    omega
  · rw [hrest, List.take_append_of_le_length hlength.le]
    exact htaken.le_of_mem_take hlength

/-- What is answered is the number that the bytes say, less what is above the word. -/
theorem sevenBit_ok {c c' : Cursor} {v : UInt32} (h : sevenBit.runAt c = (.ok v, c')) :
    ∃ taken, SevenBitForm taken ∧ taken.length ≤ 5 ∧ c.rest = taken ++ c'.rest ∧
      c'.position = c.position + taken.length ∧ v = UInt32.ofNat (groupsValue taken) := by
  rcases exists_sevenBitForm c.rest with ⟨taken, rest, hrest, htaken⟩ | hall
  · rcases Nat.lt_or_ge 5 taken.length with hlong | hshort
    · rw [sevenBit_refuses htaken hlong hrest] at h
      exact nomatch h
    · have hrun := sevenBit_answers htaken hshort rest c.position
      rw [← hrest] at hrun
      cases hrun.symm.trans h
      exact ⟨taken, htaken, hshort, hrest, rfl, rfl⟩
  · rcases Nat.lt_or_ge c.rest.length 5 with hshort | hlong
    · rw [sevenBit_runsOut hshort hall] at h
      exact nomatch h
    · rw [sevenBit_overflows hlong fun b hb => hall b (List.mem_of_mem_take hb)] at h
      exact nomatch h

/-- A number that is read comes from five bytes at most. It is the number that they say if and only if that
is below `2 ^ 32`, which means that no more than four bits of a fifth group are set; otherwise it is what a
word holds of it. Of the numbers from `2 ^ 32` on, those of more than five bytes are refused and the others
are read, and bytes that end too early are always refused. -/
theorem sevenBit_exact_iff (c : Cursor) :
    (∀ v c', sevenBit.runAt c = (.ok v, c') → ∃ taken, SevenBitForm taken ∧ taken.length ≤ 5 ∧
      c.rest = taken ++ c'.rest ∧ c'.position = c.position + taken.length ∧
      v.toNat = groupsValue taken % 2 ^ 32 ∧
      (v.toNat = groupsValue taken ↔ groupsValue taken < 2 ^ 32) ∧
      (groupsValue taken < 2 ^ 32 ↔ ∀ b ∈ taken[4]?, b.toNat % 128 < 16)) ∧
    (∀ taken rest, c.rest = taken ++ rest → SevenBitForm taken → 2 ^ 32 ≤ groupsValue taken →
      sevenBit.runAt c =
        if 5 < taken.length then
          (.error (.malformed (.sevenBitOverflow 35)), ⟨c.rest.drop 5, c.position + 5⟩)
        else (.ok (UInt32.ofNat (groupsValue taken)), ⟨rest, c.position + taken.length⟩)) ∧
    ((∀ b ∈ c.rest, 128 ≤ b.toNat) →
      sevenBit.runAt c =
        if 5 ≤ c.rest.length then
          (.error (.malformed (.sevenBitOverflow 35)), ⟨c.rest.drop 5, c.position + 5⟩)
        else (.error .outOfBounds, ⟨[], c.position + c.rest.length⟩)) := by
  refine ⟨?_, ?_, ?_⟩
  · intro v c' hrun
    obtain ⟨taken, htaken, hlength, hrest, hposition, rfl⟩ := sevenBit_ok hrun
    have hvalue : (UInt32.ofNat (groupsValue taken)).toNat = groupsValue taken % 2 ^ 32 :=
      UInt32.toNat_ofNat'
    refine ⟨taken, htaken, hlength, hrest, hposition, hvalue, ?_, groupsValue_lt_iff hlength⟩
    rw [hvalue]
    exact Nat.mod_eq_iff_lt (by decide)
  · intro taken rest hrest htaken _
    split_ifs with hlong
    · exact sevenBit_refuses htaken hlong hrest
    · have hanswer := sevenBit_answers htaken (Nat.le_of_not_lt hlong) rest c.position
      rwa [← hrest] at hanswer
  · intro hall
    split_ifs with hlong
    · exact sevenBit_overflows hlong fun b hb => hall b (List.mem_of_mem_take hb)
    · exact sevenBit_runsOut (Nat.lt_of_not_le hlong) hall

/-- Bytes of the largest number that fits, and of `2 ^ 35 - 1`, which is read as the same. -/
theorem sevenBit_exact_iff_largest :
    (∃ taken, SevenBitForm taken ∧ [0xFF, 0xFF, 0xFF, 0xFF, 0x0F] = taken ++ [] ∧
      (0xFFFFFFFF : UInt32).toNat = groupsValue taken) ∧
    sevenBit.runAt ⟨[0xFF, 0xFF, 0xFF, 0xFF, 0x7F], 0⟩ = (.ok 0xFFFFFFFF, ⟨[], 5⟩) := by
  have hform : SevenBitForm [0xFF, 0xFF, 0xFF, 0xFF, 0x7F] :=
    .more (by decide) (.more (by decide) (.more (by decide) (.more (by decide) (.last (by decide)))))
  constructor
  · obtain ⟨taken, htaken, -, hrest, -, -, hexact, hfits⟩ :=
      (sevenBit_exact_iff ⟨[0xFF, 0xFF, 0xFF, 0xFF, 0x0F], 0⟩).1 0xFFFFFFFF ⟨[], 5⟩ rfl
    have hbytes : [0xFF, 0xFF, 0xFF, 0xFF, 0x0F] = taken := by simpa using hrest
    refine ⟨taken, htaken, hrest, hexact.2 (hfits.2 ?_)⟩
    rw [← hbytes]
    intro b hb
    cases hb
    decide
  · exact (sevenBit_exact_iff ⟨[0xFF, 0xFF, 0xFF, 0xFF, 0x7F], 0⟩).2.1 _ [] rfl hform (by decide)

/-- The number `2 ^ 32` is read as zero. -/
theorem sevenBit_loses_bit :
    sevenBit.runAt (.start [0x80, 0x80, 0x80, 0x80, 0x10]) = (.ok 0, ⟨[], 5⟩) ∧
      groupsValue [0x80, 0x80, 0x80, 0x80, 0x10] = 2 ^ 32 := by
  decide

end Reader

end ModuleLinker
