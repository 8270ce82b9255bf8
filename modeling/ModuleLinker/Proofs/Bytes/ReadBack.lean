import Mathlib.Algebra.Group.Nat.Defs
import Mathlib.Tactic.Ring
import ModuleLinker.Bytes.Encoding
import ModuleLinker.Bytes.Reader
import ModuleLinker.Proofs.Token

namespace ModuleLinker

/-! # Reading back what was written

`e.ReadsBack r v`: wherever the bytes of `e` stand, the reader `r` takes exactly them and answers
`v`. The relation follows the two ways in which written forms are put together, one after another
and as a counted list, so a format that is read in the order in which it is written inherits it.
-/

/-! ## Runs of readers -/

namespace Reader

/-- What follows a reader starts where that reader stopped, unless it failed. -/
theorem runAt_bind (r : Reader α) (f : α → Reader β) (c : Cursor) :
    (r >>= f).runAt c =
      (match r.runAt c with
        | (.ok v, c') => (f v).runAt c'
        | (.error fault, c') => (.error fault, c')) := by
  -- a bind of a reader that may fail, in the state monad that is below
  have hbind : (r >>= f).runAt c =
      (StateT.run (ExceptT.run r) c >>= fun p => (ExceptT.bindCont f p.1).run p.2) := rfl
  rw [hbind]
  unfold runAt
  rcases StateT.run (ExceptT.run r) c with ⟨v | fault, c'⟩ <;> rfl

theorem runAt_bind_of_ok {r : Reader α} {f : α → Reader β} {c c' : Cursor} {v : α}
    (h : r.runAt c = (.ok v, c')) : (r >>= f).runAt c = (f v).runAt c' := by
  rw [runAt_bind, h]

theorem remaining_runAt (c : Cursor) : remaining.runAt c = (.ok c.rest.length, c) := rfl

theorem bytes_runAt_eq (n : Nat) (c : Cursor) :
    (bytes n).runAt c =
      if n ≤ c.rest.length then (.ok (c.rest.take n), ⟨c.rest.drop n, c.position + n⟩)
      else (.error .outOfBounds, c) := by
  -- the only reader that looks at the rest itself, so it is opened down to the state
  unfold bytes runAt
  simp only [bind, ExceptT.bind, ExceptT.run, ExceptT.mk, StateT.run, StateT.bind, get, getThe,
    MonadStateOf.get, liftM, monadLift, MonadLift.monadLift, ExceptT.lift, StateT.get, StateT.map,
    Functor.map, pure, ExceptT.bindCont]
  split <;> rfl

theorem bytes_runAt (taken rest : Bytes) (position : Nat) :
    (bytes taken.length).runAt ⟨taken ++ rest, position⟩ =
      (.ok taken, ⟨rest, position + taken.length⟩) := by
  have hle : taken.length ≤ (taken ++ rest).length := by simp
  rw [bytes_runAt_eq, if_pos hle, List.take_left', List.drop_left'] <;> rfl

end Reader

namespace Encoding

/-! ## Written forms without fault -/

/-- Nothing stopped the writing, and 32 bits hold every length inside the written form. -/
structure Fits (e : Encoding) : Prop where
  fault_eq : e.fault = none
  length_lt : e.bytes.length < UInt32.size

@[simp] theorem bytes_ofBytes (b : Bytes) : (ofBytes b).bytes = b := rfl

theorem bytes_append {a b : Encoding} (h : a.fault = none) :
    (a ++ b).bytes = a.bytes ++ b.bytes := by
  show (append a b).bytes = _
  simp [append, h]

theorem fault_append {a b : Encoding} :
    (a ++ b).fault = none ↔ a.fault = none ∧ b.fault = none := by
  show (append a b).fault = none ↔ _
  rcases a with ⟨as, _ | fault⟩ <;> simp [append]

theorem Fits.left {a b : Encoding} (h : (a ++ b).Fits) : a.Fits := by
  have hfault := fault_append.1 h.fault_eq
  have hlength := h.length_lt
  rw [bytes_append hfault.1, List.length_append] at hlength
  exact ⟨hfault.1, by omega⟩

theorem Fits.right {a b : Encoding} (h : (a ++ b).Fits) : b.Fits := by
  have hfault := fault_append.1 h.fault_eq
  have hlength := h.length_lt
  rw [bytes_append hfault.1, List.length_append] at hlength
  exact ⟨hfault.2, by omega⟩

theorem length_append {a b : Encoding} (h : a.fault = none) :
    (a ++ b).bytes.length = a.bytes.length + b.bytes.length := by
  rw [bytes_append h, List.length_append]

theorem bytes_append_eq_nil {a b : Encoding} :
    (a ++ b).bytes = [] ↔ a.bytes = [] ∧ (a.fault = none → b.bytes = []) := by
  show (append a b).bytes = [] ↔ _
  rcases a with ⟨as, _ | fault⟩ <;> simp [append]

/-! ## The relation -/

/-- Where the written form fits, the reader takes exactly its bytes and answers `v`. -/
def ReadsBack (e : Encoding) (r : Reader α) (v : α) : Prop :=
  e.Fits → ∀ rest position,
    r.runAt ⟨e.bytes ++ rest, position⟩ = (.ok v, ⟨rest, position + e.bytes.length⟩)

namespace ReadsBack

theorem pure (v : α) : empty.ReadsBack (Pure.pure v) v := by
  intro _ rest position
  rfl

/-- What is written one after another is read one after another. -/
theorem bind {a b : Encoding} {r : Reader α} {f : α → Reader β} {v : α} {w : β}
    (ha : a.ReadsBack r v) (hb : b.ReadsBack (f v) w) : (a ++ b).ReadsBack (r >>= f) w := by
  intro hfits rest position
  rw [bytes_append hfits.left.fault_eq, List.append_assoc,
    Reader.runAt_bind_of_ok (ha hfits.left (b.bytes ++ rest) position),
    hb hfits.right rest (position + a.bytes.length), List.length_append, Nat.add_assoc]

/-- Behind the last written form nothing is read. -/
theorem last {a : Encoding} {r : Reader α} {f : α → Reader β} {v : α} {w : β}
    (ha : a.ReadsBack r v) (hf : f v = Pure.pure w) : a.ReadsBack (r >>= f) w := by
  -- nothing is written behind `a`, which is what `pure` reads
  have h := ha.bind (f := f) (hf ▸ ReadsBack.pure w)
  rwa [append_empty] at h

theorem map {a : Encoding} {r : Reader α} {v : α} (f : α → β) (ha : a.ReadsBack r v) :
    a.ReadsBack (r >>= fun x => Pure.pure (f x)) (f v) :=
  ha.last rfl

end ReadsBack

/-! ## Integers of a fixed width -/

theorem length_littleEndian (width n : Nat) : (littleEndian width n).length = width := by
  induction width generalizing n with
  | zero => rfl
  | succ width ih => simp [littleEndian, ih]

theorem littleEndian_littleEndian (width n : Nat) :
    Reader.littleEndian (littleEndian width n) = n % 256 ^ width := by
  induction width generalizing n with
  | zero => simp [littleEndian, Reader.littleEndian, Nat.mod_one]
  | succ width ih =>
    have hlow : (UInt8.ofNat n).toNat = n % 256 := rfl
    simp only [littleEndian, Reader.littleEndian, ih, hlow]
    rw [Nat.pow_succ', Nat.mod_mul (x := n) (a := 256)]

theorem readsBack_bytes (b : Bytes) : (ofBytes b).ReadsBack (Reader.bytes b.length) b := by
  intro _ rest position
  exact Reader.bytes_runAt b rest position

/-- The bytes of an integer that they have room for are read as that integer. -/
theorem readsBack_littleEndian (width : Nat) {n : Nat} (hn : n < 256 ^ width) (f : Nat → α) :
    (ofBytes (littleEndian width n)).ReadsBack
      (do return f (Reader.littleEndian (← Reader.bytes width))) (f n) := by
  have h := (readsBack_bytes (littleEndian width n)).map fun b => f (Reader.littleEndian b)
  rwa [length_littleEndian, littleEndian_littleEndian, Nat.mod_eq_of_lt hn] at h

theorem readsBack_byte (b : UInt8) : (byte b).ReadsBack Reader.byte b := by
  intro _ rest position
  rfl

theorem readsBack_bool (b : Bool) : (bool b).ReadsBack Reader.bool b := by
  have h := (readsBack_byte (if b then 1 else 0)).map (· != 0)
  cases b <;> exact h

theorem readsBack_u16 (n : UInt16) : (u16 n).ReadsBack Reader.u16 n := by
  have h := readsBack_littleEndian 2 n.toNat_lt UInt16.ofNat
  rwa [UInt16.ofNat_toNat] at h

theorem readsBack_u32 (n : UInt32) : (u32 n).ReadsBack Reader.u32 n := by
  have h := readsBack_littleEndian 4 n.toNat_lt UInt32.ofNat
  rwa [UInt32.ofNat_toNat] at h

theorem readsBack_u64 (n : UInt64) : (u64 n).ReadsBack Reader.u64 n := by
  have h := readsBack_littleEndian 8 n.toNat_lt UInt64.ofNat
  rwa [UInt64.ofNat_toNat] at h

theorem readsBack_i32 (n : Int32) : (i32 n).ReadsBack Reader.i32 n :=
  (readsBack_u32 n.toUInt32).map UInt32.toInt32

theorem readsBack_i64 (n : Int64) : (i64 n).ReadsBack Reader.i64 n :=
  (readsBack_u64 n.toUInt64).map UInt64.toInt64

theorem readsBack_token (t : Token) : (token t).ReadsBack Reader.token t :=
  (readsBack_u32 t.value).map Token.mk

end Encoding

/-- A token that may be missing, as it is read back: the null token stands for none. -/
def Token.orNone (t : Option Token) : Option Token := t.filter fun t => !t.isNull

namespace Encoding

theorem readsBack_token? (t : Option Token) : (token? t).ReadsBack Reader.token? (Token.orNone t) := by
  have h := (readsBack_token (t.getD .null)).map fun t => if t.isNull then none else some t
  rcases t with _ | t
  · exact h
  · have hnone : Token.orNone (some t) = if t.isNull then none else some t := by
      by_cases hnull : t.isNull <;> simp [Token.orNone, Option.filter, hnull]
    rw [hnone]
    exact h

end Encoding

/-! ## Integers of a variable width, read back

The compressed form tells by the high bits of its first byte how many bytes follow, the seven-bit
form by the high bit of each byte. Both proofs come down to putting a number together from its parts,
which share no bit, so that the parts add up.
-/

namespace Encoding

/-! ### The compressed form -/

/-- Bytes put together as the parts of a word add up without a carry. -/
theorem or_of_bytes {a b c d : Nat} (ha : a < 256) (hb : b < 256) (hc : c < 256) (hd : d < 256) :
    a <<< 24 % 2 ^ 32 ||| b <<< 16 % 2 ^ 32 ||| c <<< 8 % 2 ^ 32 ||| d =
      a * 2 ^ 24 + b * 2 ^ 16 + c * 2 ^ 8 + d := by
  have ha' : a <<< 24 % 2 ^ 32 = a <<< 24 := by rw [Nat.shiftLeft_eq]; omega
  have hb' : b <<< 16 % 2 ^ 32 = b <<< 16 := by rw [Nat.shiftLeft_eq]; omega
  have hc' : c <<< 8 % 2 ^ 32 = c <<< 8 := by rw [Nat.shiftLeft_eq]; omega
  rw [ha', hb', hc', Nat.or_assoc, Nat.or_assoc, shiftLeft_or_eq (a := c) (by omega),
    shiftLeft_or_eq (a := b) (by omega), shiftLeft_or_eq (a := a) (by omega)]
  omega

/-- The lead byte of the one-byte form can be told apart. -/
theorem lead_one : ∀ h < 128, UInt8.ofNat h &&& 0x80 = 0 := by
  decide

/-- The lead byte of the two-byte form can be told apart and gives back its six bits. -/
theorem lead_two : ∀ h < 64, (UInt8.ofNat h ||| 0x80) &&& 0x80 ≠ 0 ∧
    (UInt8.ofNat h ||| 0x80) &&& 0xC0 = 0x80 ∧ (h ||| 128) &&& 63 = h := by
  decide

/-- The lead byte of the four-byte form can be told apart and gives back its five bits. -/
theorem lead_four : ∀ h < 32, (UInt8.ofNat h ||| 0xC0) &&& 0x80 ≠ 0 ∧
    (UInt8.ofNat h ||| 0xC0) &&& 0xC0 ≠ 0x80 ∧ (UInt8.ofNat h ||| 0xC0) &&& 0xE0 = 0xC0 ∧
    (h ||| 192) &&& 31 = h := by
  decide

theorem readsBack_compressed_one {n : UInt32} (hn : n.toNat ≤ 0x7F) :
    (byte n.toUInt8).ReadsBack Reader.compressed n := by
  have hlead : n.toUInt8 = UInt8.ofNat n.toNat := rfl
  refine (readsBack_byte n.toUInt8).last ?_
  rw [hlead, if_pos (lead_one n.toNat (by omega))]
  congr 1
  apply UInt32.toNat_inj.mp
  rw [UInt8.toNat_toUInt32, UInt8.toNat_ofNat', Nat.mod_eq_of_lt (by omega)]

theorem readsBack_compressed_two {n : UInt32} (hn : n.toNat ≤ 0x3FFF) :
    (ofBytes [(n >>> 8).toUInt8 ||| 0x80, n.toUInt8]).ReadsBack Reader.compressed n := by
  have hshift : (n >>> 8).toNat = n.toNat / 2 ^ 8 := by
    simp only [UInt32.toNat_shiftRight, UInt32.reduceToNat, Nat.reduceMod,
      Nat.shiftRight_eq_div_pow]
  -- the lead byte keeps six bits, and the marks stand above them
  have hhigh : (n >>> 8).toNat < 64 := by omega
  have hnot : ((n >>> 8).toUInt8 ||| 0x80) &&& 0x80 ≠ 0 := (lead_two _ hhigh).1
  have htwo : ((n >>> 8).toUInt8 ||| 0x80) &&& 0xC0 = 0x80 := (lead_two _ hhigh).2.1
  have hback := (lead_two _ hhigh).2.2
  have hvalue : (((n >>> 8).toUInt8 ||| 0x80).toUInt32 &&& 0x3F) <<< 8 ||| n.toUInt8.toUInt32 = n := by
    apply UInt32.toNat_inj.mp
    simp only [UInt32.toNat_or, UInt32.toNat_shiftLeft, UInt32.toNat_and, UInt8.toNat_toUInt32,
      UInt8.toNat_or, UInt32.toNat_toUInt8, UInt32.reduceToNat, UInt8.reduceToNat, Nat.reduceMod]
    rw [Nat.mod_eq_of_lt (a := (n >>> 8).toNat) (by omega), hback,
      Nat.mod_eq_of_lt (a := _ <<< _) (by rw [Nat.shiftLeft_eq]; omega),
      shiftLeft_or_eq (by omega)]
    omega
  show (byte _ ++ byte _).ReadsBack _ _
  refine (readsBack_byte _).bind ?_
  rw [if_neg hnot, if_pos htwo]
  exact (readsBack_byte _).last (by rw [hvalue])

theorem readsBack_compressed_four {n : UInt32} (hn : n.toNat ≤ 0x1FFFFFFF) :
    (ofBytes [(n >>> 24).toUInt8 ||| 0xC0, (n >>> 16).toUInt8, (n >>> 8).toUInt8,
      n.toUInt8]).ReadsBack Reader.compressed n := by
  have hshift : (n >>> 24).toNat = n.toNat / 2 ^ 24 := by
    simp only [UInt32.toNat_shiftRight, UInt32.reduceToNat, Nat.reduceMod,
      Nat.shiftRight_eq_div_pow]
  -- the lead byte keeps five bits, and the marks stand above them
  have hhigh : (n >>> 24).toNat < 32 := by omega
  have hnot : ((n >>> 24).toUInt8 ||| 0xC0) &&& 0x80 ≠ 0 := (lead_four _ hhigh).1
  have htwo : ((n >>> 24).toUInt8 ||| 0xC0) &&& 0xC0 ≠ 0x80 := (lead_four _ hhigh).2.1
  have hfour : ((n >>> 24).toUInt8 ||| 0xC0) &&& 0xE0 = 0xC0 := (lead_four _ hhigh).2.2.1
  have hback := (lead_four _ hhigh).2.2.2
  have hvalue : (((n >>> 24).toUInt8 ||| 0xC0).toUInt32 &&& 0x1F) <<< 24 |||
      (n >>> 16).toUInt8.toUInt32 <<< 16 ||| (n >>> 8).toUInt8.toUInt32 <<< 8 |||
      n.toUInt8.toUInt32 = n := by
    apply UInt32.toNat_inj.mp
    simp only [UInt32.toNat_or, UInt32.toNat_shiftLeft, UInt32.toNat_and, UInt8.toNat_toUInt32,
      UInt8.toNat_or, UInt32.toNat_toUInt8, UInt32.reduceToNat, UInt8.reduceToNat, Nat.reduceMod]
    rw [Nat.mod_eq_of_lt (a := (n >>> 24).toNat) (by omega), hback,
      or_of_bytes (by omega) (by omega) (by omega) (by omega)]
    simp only [UInt32.toNat_shiftRight, UInt32.reduceToNat, Nat.reduceMod,
      Nat.shiftRight_eq_div_pow]
    omega
  show (byte _ ++ (byte _ ++ (byte _ ++ byte _))).ReadsBack _ _
  refine (readsBack_byte _).bind ?_
  rw [if_neg hnot, if_neg htwo, if_pos hfour]
  refine (readsBack_byte _).bind ((readsBack_byte _).bind ?_)
  exact (readsBack_byte _).last (by rw [hvalue])

theorem readsBack_compressed (n : UInt32) : (compressed n).ReadsBack Reader.compressed n := by
  unfold compressed
  split_ifs with hone htwo hfour
  · exact readsBack_compressed_one (UInt32.le_iff_toNat_le.1 hone)
  · exact readsBack_compressed_two (UInt32.le_iff_toNat_le.1 htwo)
  · exact readsBack_compressed_four (UInt32.le_iff_toNat_le.1 hfour)
  · -- a larger integer has no written form
    intro hfits
    exact nomatch hfits.fault_eq

/-! ### Groups of seven bits -/

/-- The high bit of a byte tells that more bytes follow. -/
theorem or_128_and_128 (b : UInt8) : (b ||| 0x80) &&& 0x80 ≠ 0 := by
  intro h
  -- the high bit is set on the left and not on the right
  have hbit := congrArg (fun b : UInt8 => b.toNat.testBit 7) h
  have hmark : Nat.testBit 128 7 = true := by decide
  simp [hmark] at hbit

/-- Whether or not the high bit of a byte is set, the other bits are the low ones of the number. -/
theorem toNat_sevenBits (n : UInt32) :
    (n.toUInt8 &&& 0x7F).toUInt32.toNat = n.toNat % 128 ∧
      ((n.toUInt8 ||| 0x80) &&& 0x7F).toUInt32.toNat = n.toNat % 128 := by
  have hmask (x : Nat) : x &&& 127 = x % 2 ^ 7 := Nat.and_two_pow_sub_one_eq_mod x 7
  have hmark (x : Nat) : (x ||| 128) &&& 127 = x % 2 ^ 7 := by
    rw [hmask, Nat.or_mod_two_pow, Nat.mod_self, Nat.or_zero]
  simp only [UInt8.toNat_toUInt32, UInt8.toNat_and, UInt8.toNat_or, UInt32.toNat_toUInt8,
    UInt8.reduceToNat, hmark]
  rw [hmask]
  omega

/-- The low seven bits and the bits above them make up a number, wherever it stands. -/
theorem or_shiftLeft_sevenBits (n s : Nat) :
    (n % 128) <<< s ||| (n / 128) <<< (s + 7) = n <<< s := by
  have hsplit : (n / 128) <<< 7 ||| n % 128 = n := by
    rw [shiftLeft_or_eq (by omega)]
    omega
  rw [Nat.or_comm, Nat.add_comm, Nat.shiftLeft_add, ← Nat.shiftLeft_or_distrib, hsplit]

/-- A shift that pushes no bit out of the word is a multiplication. -/
theorem toNat_shiftLeft_ofNat {n : UInt32} {s : Nat} (hs : s < 32)
    (hn : n.toNat * 2 ^ s < 2 ^ 32) : (n <<< UInt32.ofNat s).toNat = n.toNat <<< s := by
  have hshift : (UInt32.ofNat s).toNat % 32 = s := by
    rw [UInt32.toNat_ofNat', Nat.mod_eq_of_lt (b := 2 ^ 32) (by omega), Nat.mod_eq_of_lt hs]
  rw [UInt32.toNat_shiftLeft, hshift, Nat.mod_eq_of_lt (by rwa [Nat.shiftLeft_eq])]

/-- A number of seven bits is one group, which tells that none follows. -/
theorem readsBack_lastGroup {n : UInt32} (hn : n < 0x80) (groups shift : Nat) (value : UInt32) :
    (ofBytes (sevenBit n)).ReadsBack (Reader.sevenBitGroups (groups + 1) shift value)
      (value ||| n <<< UInt32.ofNat shift) := by
  have hn' : n.toNat < 128 := UInt32.lt_iff_toNat_lt.1 hn
  have hend : n.toUInt8 &&& 0x80 = 0 := lead_one n.toNat hn'
  have hgroup : (n.toUInt8 &&& 0x7F).toUInt32 = n := by
    apply UInt32.toNat_inj.mp
    rw [(toNat_sevenBits n).1, Nat.mod_eq_of_lt hn']
  rw [sevenBit, if_pos hn]
  refine (readsBack_byte n.toUInt8).last ?_
  rw [hgroup, if_pos hend]

/-- The groups that are written for a number are the ones that are read. They end with the fifth
group at the latest, because the number has no more than 32 bits. -/
theorem readsBack_sevenBitGroups (groups shift : Nat) (value n : UInt32)
    (hgroups : shift + 7 * groups = 28) (hn : n.toNat * 2 ^ shift < 2 ^ 32) :
    (ofBytes (sevenBit n)).ReadsBack (Reader.sevenBitGroups (groups + 1) shift value)
      (value ||| n <<< UInt32.ofNat shift) := by
  induction groups generalizing shift value n with
  | zero =>
    obtain rfl : shift = 28 := by omega
    exact readsBack_lastGroup (UInt32.lt_iff_toNat_lt.2 (by simp; omega)) 0 28 value
  | succ groups ih =>
    by_cases hlast : n < 0x80
    · exact readsBack_lastGroup hlast (groups + 1) shift value
    -- what is above the low seven bits still fits, seven places further up
    have hhigh : (n >>> 7).toNat = n.toNat / 128 := by
      simp only [UInt32.toNat_shiftRight, UInt32.reduceToNat, Nat.reduceMod,
        Nat.shiftRight_eq_div_pow, Nat.reducePow]
    have hhigh' : (n >>> 7).toNat * 2 ^ (shift + 7) < 2 ^ 32 := by
      calc (n >>> 7).toNat * 2 ^ (shift + 7)
          = n.toNat / 128 * 128 * 2 ^ shift := by rw [hhigh]; ring
        _ ≤ n.toNat * 2 ^ shift := Nat.mul_le_mul_right _ (Nat.div_mul_le_self ..)
        _ < 2 ^ 32 := hn
    have hgroup : ((n.toUInt8 ||| 0x80) &&& 0x7F).toUInt32.toNat = n.toNat % 128 :=
      (toNat_sevenBits n).2
    have hlow : n.toNat % 128 * 2 ^ shift < 2 ^ 32 :=
      lt_of_le_of_lt (Nat.mul_le_mul_right _ (Nat.mod_le ..)) hn
    -- the group that is read now and the later ones make up `n`
    have hjoin : ((n.toUInt8 ||| 0x80) &&& 0x7F).toUInt32 <<< UInt32.ofNat shift |||
        (n >>> 7) <<< UInt32.ofNat (shift + 7) = n <<< UInt32.ofNat shift := by
      apply UInt32.toNat_inj.mp
      rw [UInt32.toNat_or, toNat_shiftLeft_ofNat (by omega) (hgroup ▸ hlow),
        toNat_shiftLeft_ofNat (by omega) hhigh', toNat_shiftLeft_ofNat (by omega) hn, hgroup, hhigh,
        or_shiftLeft_sevenBits]
    rw [sevenBit, if_neg hlast]
    show (byte _ ++ ofBytes _).ReadsBack _ _
    refine (readsBack_byte _).bind ?_
    rw [if_neg (or_128_and_128 _), ← hjoin, ← UInt32.or_assoc]
    exact ih (shift + 7) _ (n >>> 7) (by omega) hhigh'

theorem readsBack_sevenBit (n : UInt32) : (ofBytes (sevenBit n)).ReadsBack Reader.sevenBit n := by
  have h := readsBack_sevenBitGroups 4 0 0 n rfl (by simpa using n.toNat_lt)
  have hvalue : 0 ||| n <<< UInt32.ofNat 0 = n := by
    simp
  rwa [hvalue] at h

end Encoding

/-! ## Blobs, texts and lists, read back

What is written after its own length. The 32 bits of a length lose nothing where the whole written
form fits, and a number of elements never exceeds the bytes behind it, because every element takes
one at least.
-/

namespace Encoding

/-! ### Strings of bytes and texts -/

theorem readsBack_blob (b : Bytes) : (blob b).ReadsBack Reader.blob b := by
  intro hfits
  -- the length is below 32 bits only because the whole form is
  have hlength : b.length < UInt32.size := by
    have h := hfits.length_lt
    simp only [blob, bytes_ofBytes, List.length_append] at h
    omega
  have hcount : (UInt32.ofNat b.length).toNat = b.length := by
    rw [UInt32.toNat_ofNat', Nat.mod_eq_of_lt hlength]
  have hbytes : (ofBytes b).ReadsBack (Reader.bytes (UInt32.ofNat b.length).toNat) b := by
    rw [hcount]
    exact readsBack_bytes b
  have h := (readsBack_sevenBit (UInt32.ofNat b.length)).bind
    (f := fun n => Reader.bytes n.toNat) hbytes
  exact h hfits

/-- The bytes of a text spell that text. -/
theorem decode_encode (s : String) : Utf8.decode (Utf8.encode s) = .ok s := by
  have hvalid : (⟨s.toByteArray.data⟩ : ByteArray).IsValidUTF8 := s.isValidUTF8
  unfold Utf8.decode Utf8.encode
  simp [String.fromUTF8?, hvalid, String.fromUTF8]

theorem readsBack_text (s : String) : (text s).ReadsBack Reader.text s := by
  refine (readsBack_blob (Utf8.encode s)).last ?_
  rw [decode_encode]

/-! ### Lists -/

/-- The elements of a list, one after another. -/
theorem readsBack_each {encode : α → Encoding} {read : Reader β} {g : α → β} {xs : List α}
    (h : ∀ x ∈ xs, (encode x).ReadsBack read (g x)) :
    (each encode xs).ReadsBack (Reader.times read xs.length) (xs.map g) := by
  induction xs with
  | nil => exact ReadsBack.pure []
  | cons x xs ih =>
    have hhead := h x (List.mem_cons_self ..)
    have htail := ih fun y hy => h y (List.mem_cons_of_mem x hy)
    exact hhead.bind (htail.map (g x :: ·))

/-- Elements that take a byte each take as many bytes as there are elements. -/
theorem length_le_each {encode : α → Encoding} {xs : List α}
    (hne : ∀ x ∈ xs, (encode x).bytes ≠ []) (hfault : (each encode xs).fault = none) :
    xs.length ≤ (each encode xs).bytes.length := by
  induction xs with
  | nil => exact Nat.zero_le _
  | cons x xs ih =>
    have hsplit : each encode (x :: xs) = encode x ++ each encode xs := rfl
    rw [hsplit] at hfault ⊢
    have hx := List.length_pos_iff.2 (hne x (List.mem_cons_self ..))
    have hxs := ih (fun y hy => hne y (List.mem_cons_of_mem x hy)) (fault_append.1 hfault).2
    rw [length_append (fault_append.1 hfault).1, List.length_cons]
    omega

/-- No element takes more bytes than the whole list. -/
theorem length_mem_le_each {encode : α → Encoding} {xs : List α} {x : α} (hx : x ∈ xs)
    (hfault : (each encode xs).fault = none) :
    (encode x).bytes.length ≤ (each encode xs).bytes.length := by
  induction xs with
  | nil => exact absurd hx (List.not_mem_nil)
  | cons y xs ih =>
    have hsplit : each encode (y :: xs) = encode y ++ each encode xs := rfl
    rw [hsplit] at hfault ⊢
    rw [length_append (fault_append.1 hfault).1]
    rcases List.mem_cons.1 hx with rfl | hmem
    · exact Nat.le_add_right ..
    · exact le_trans (ih hmem (fault_append.1 hfault).2) (Nat.le_add_left ..)

/-- A number of elements is read where at least as many bytes follow it. -/
theorem count_runAt {n : Nat} {behind : Bytes} (hfits : (compressed (UInt32.ofNat n)).Fits)
    (hsize : n < UInt32.size) (hbehind : n ≤ behind.length) (position : Nat) :
    Reader.count.runAt ⟨(compressed (UInt32.ofNat n)).bytes ++ behind, position⟩ =
      (.ok n, ⟨behind, position + (compressed (UInt32.ofNat n)).bytes.length⟩) := by
  have hcount : (UInt32.ofNat n).toNat = n := by rw [UInt32.toNat_ofNat', Nat.mod_eq_of_lt hsize]
  have hcompressed := readsBack_compressed (UInt32.ofNat n) hfits behind position
  unfold Reader.count
  rw [Reader.runAt_bind_of_ok hcompressed]
  dsimp only
  rw [hcount, Reader.runAt_bind_of_ok (Reader.remaining_runAt _), if_neg (Nat.not_lt.2 hbehind)]
  rfl

/-- A number of elements is accepted where at least as many bytes follow it. -/
theorem readsBack_counted {n : Nat} {body : Encoding} {f : Nat → Reader α} {v : α}
    (hbody : body.ReadsBack (f n) v) (hle : body.fault = none → n ≤ body.bytes.length) :
    (compressed (UInt32.ofNat n) ++ body).ReadsBack (Reader.count >>= f) v := by
  intro hfits rest position
  have hn := hle hfits.right.fault_eq
  have hbehind : n ≤ (body.bytes ++ rest).length := by
    rw [List.length_append]
    omega
  -- as many bytes follow as there are elements, so the number fits where they do
  have hread := count_runAt hfits.left (lt_of_le_of_lt hn hfits.right.length_lt) hbehind position
  rw [bytes_append hfits.left.fault_eq, List.append_assoc, Reader.runAt_bind_of_ok hread,
    hbody hfits.right, List.length_append, Nat.add_assoc]

/-- A counted list of elements that take a byte each, and come back changed. -/
theorem readsBack_listMap {encode : α → Encoding} {read : Reader β} {g : α → β} {xs : List α}
    (h : ∀ x ∈ xs, (encode x).ReadsBack read (g x)) (hne : ∀ x ∈ xs, (encode x).bytes ≠ []) :
    (list encode xs).ReadsBack (Reader.list read) (xs.map g) := by
  have hbody := readsBack_counted (f := Reader.times read) (readsBack_each h) (length_le_each hne)
  unfold list count
  split
  case isTrue => exact hbody
  case isFalse =>
    intro hfits
    exact nomatch hfits.left.fault_eq

/-- A counted list of elements that take a byte each. -/
theorem readsBack_list {encode : α → Encoding} {read : Reader α} {xs : List α}
    (h : ∀ x ∈ xs, (encode x).ReadsBack read x) (hne : ∀ x ∈ xs, (encode x).bytes ≠ []) :
    (list encode xs).ReadsBack (Reader.list read) xs := by
  have hlist := readsBack_listMap (g := id) h hne
  rwa [List.map_id] at hlist

theorem blob_ne_nil (b : Bytes) : (blob b).bytes ≠ [] := by
  intro h
  have hgroups : sevenBit (UInt32.ofNat b.length) = [] := (List.append_eq_nil_iff.1 h).1
  unfold sevenBit at hgroups
  split at hgroups <;> exact absurd hgroups (List.cons_ne_nil _ _)

theorem text_ne_nil (s : String) : (text s).bytes ≠ [] := blob_ne_nil _

theorem u32_ne_nil (n : UInt32) : (u32 n).bytes ≠ [] := List.cons_ne_nil _ _

theorem token_ne_nil (t : Token) : (token t).bytes ≠ [] := u32_ne_nil _

end Encoding

/-! ## Written forms that are not read back

The writer knows nothing of two of the reader's limits: how deep types may be nested, and that the
base of an instantiation is a named type. `e.ReadsIff r p v` says of a written form that the reader
`r` takes it back as `v` if `p` holds, and gives up at one of these limits if `p` does not. Like
`ReadsBack` it follows the ways in which written forms are put together.
-/

/-- The faults that a reader finds in what was written without one. -/
inductive ShapeFault : Fault → Prop where
  | base (position : Nat) : ShapeFault (.malformed (.instantiationBase position))
  | nesting (limit position : Nat) : ShapeFault (.malformed (.nesting limit position))

namespace Encoding

/-- Where the written form fits, the reader gives up at one of its limits. -/
def Refused (e : Encoding) (r : Reader α) : Prop :=
  e.Fits → ∀ rest position, ∃ fault c, ShapeFault fault ∧
    r.runAt ⟨e.bytes ++ rest, position⟩ = (.error fault, c)

namespace Refused

variable {a b : Encoding} {r : Reader α} {f : α → Reader β} {v : α}

/-- What comes behind a refused form is not reached. -/
theorem before (ha : a.Refused r) : (a ++ b).Refused (r >>= f) := by
  intro hfits rest position
  obtain ⟨fault, c, hshape, hrun⟩ := ha hfits.left (b.bytes ++ rest) position
  refine ⟨fault, c, hshape, ?_⟩
  rw [bytes_append hfits.left.fault_eq, List.append_assoc, Reader.runAt_bind, hrun]

/-- A refused form is reached when what comes before it has been read. -/
theorem after (ha : a.ReadsBack r v) (hb : b.Refused (f v)) : (a ++ b).Refused (r >>= f) := by
  intro hfits rest position
  obtain ⟨fault, c, hshape, hrun⟩ := hb hfits.right rest (position + a.bytes.length)
  refine ⟨fault, c, hshape, ?_⟩
  rw [bytes_append hfits.left.fault_eq, List.append_assoc,
    Reader.runAt_bind_of_ok (ha hfits.left (b.bytes ++ rest) position), hrun]

end Refused

/-- The reader takes the written form back as `v` if `p` holds, and refuses it otherwise. -/
structure ReadsIff (e : Encoding) (r : Reader α) (p : Prop) (v : α) : Prop where
  readsBack : p → e.ReadsBack r v
  refused : ¬p → e.Refused r

namespace ReadsIff

variable {a b : Encoding} {r : Reader α} {f : α → Reader β} {p q : Prop} {v : α} {w : β}

theorem imp (ha : a.ReadsIff r p v) (h : p ↔ q) : a.ReadsIff r q v :=
  ⟨fun hq => ha.readsBack (h.2 hq), fun hq => ha.refused fun hp => hq (h.1 hp)⟩

/-- Only written forms that fit have to be looked at. -/
theorem of_fits (h : a.Fits → a.ReadsIff r p v) : a.ReadsIff r p v :=
  ⟨fun hp hfits => (h hfits).readsBack hp hfits, fun hp hfits => (h hfits).refused hp hfits⟩

/-- A form without a shape to refuse. -/
theorem of_readsBack (hp : p) (ha : a.ReadsBack r v) : a.ReadsIff r p v :=
  ⟨fun _ => ha, fun hnot => absurd hp hnot⟩

/-- What is written one after another is read back if each part is. -/
theorem bind (ha : a.ReadsIff r p v) (hb : b.ReadsIff (f v) q w) :
    (a ++ b).ReadsIff (r >>= f) (p ∧ q) w := by
  refine ⟨fun h => (ha.readsBack h.1).bind (hb.readsBack h.2), fun h => ?_⟩
  by_cases hp : p
  · exact (hb.refused fun hq => h ⟨hp, hq⟩).after (ha.readsBack hp)
  · exact (ha.refused hp).before

/-- A form that is always read back stands before one that is not. -/
theorem after (ha : a.ReadsBack r v) (hb : b.ReadsIff (f v) q w) :
    (a ++ b).ReadsIff (r >>= f) q w :=
  ⟨fun hq => ha.bind (hb.readsBack hq), fun hq => (hb.refused hq).after ha⟩

/-- A form that is always read back stands behind one that is not. -/
theorem before (ha : a.ReadsIff r p v) (hb : b.ReadsBack (f v) w) :
    (a ++ b).ReadsIff (r >>= f) p w :=
  ⟨fun hp => (ha.readsBack hp).bind hb, fun hp => (ha.refused hp).before⟩

/-- Behind the last written form nothing is read. -/
theorem last (ha : a.ReadsIff r p v) (hf : f v = Pure.pure w) : a.ReadsIff (r >>= f) p w := by
  have h := ha.before (f := f) (hf ▸ ReadsBack.pure w)
  rwa [append_empty] at h

theorem map (g : α → β) (ha : a.ReadsIff r p v) :
    a.ReadsIff (r >>= fun x => Pure.pure (g x)) p (g v) :=
  ha.last rfl

end ReadsIff

/-! ### Lists -/

section Lists

variable {encode : α → Encoding} {read : Reader β} {p : α → Prop} {g : α → β} {xs : List α}

/-- Elements one after another are read back if each of them is. -/
theorem readsIff_each (h : ∀ x ∈ xs, (encode x).ReadsIff read (p x) (g x)) :
    (each encode xs).ReadsIff (Reader.times read xs.length) (∀ x ∈ xs, p x) (xs.map g) := by
  induction xs with
  | nil => exact ⟨fun _ => ReadsBack.pure [], fun hnot => absurd nofun hnot⟩
  | cons x xs ih =>
    have hhead := h x (List.mem_cons_self ..)
    have htail := ih fun y hy => h y (List.mem_cons_of_mem x hy)
    exact (hhead.bind (htail.map (g x :: ·))).imp List.forall_mem_cons.symm

/-- What is counted is refused behind its number as well as without it. -/
theorem readsIff_counted {n : Nat} {body : Encoding} {f : Nat → Reader α} {q : Prop} {v : α}
    (hbody : body.ReadsIff (f n) q v) (hle : body.fault = none → n ≤ body.bytes.length) :
    (compressed (UInt32.ofNat n) ++ body).ReadsIff (Reader.count >>= f) q v := by
  refine ⟨fun hq => readsBack_counted (hbody.readsBack hq) hle, fun hq hfits rest position => ?_⟩
  have hn := hle hfits.right.fault_eq
  have hbehind : n ≤ (body.bytes ++ rest).length := by
    rw [List.length_append]
    omega
  have hread := count_runAt hfits.left (lt_of_le_of_lt hn hfits.right.length_lt) hbehind position
  obtain ⟨fault, c, hshape, hrun⟩ := hbody.refused hq hfits.right rest
    (position + (compressed (UInt32.ofNat n)).bytes.length)
  refine ⟨fault, c, hshape, ?_⟩
  rw [bytes_append hfits.left.fault_eq, List.append_assoc, Reader.runAt_bind_of_ok hread, hrun]

/-- A counted list is read back if each of its elements is. -/
theorem readsIff_list (h : ∀ x ∈ xs, (encode x).ReadsIff read (p x) (g x))
    (hne : ∀ x ∈ xs, (encode x).bytes ≠ []) :
    (list encode xs).ReadsIff (Reader.list read) (∀ x ∈ xs, p x) (xs.map g) := by
  have hbody := readsIff_counted (f := Reader.times read) (readsIff_each h) (length_le_each hne)
  unfold list count
  split
  case isTrue => exact hbody
  case isFalse =>
    -- the number itself could not be written
    refine ⟨fun _ hfits => ?_, fun _ hfits => ?_⟩ <;> exact nomatch hfits.left.fault_eq

end Lists

end Encoding

end ModuleLinker
