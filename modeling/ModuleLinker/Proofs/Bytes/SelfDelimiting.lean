import ModuleLinker.Proofs.Bytes.WriteBack
import ModuleLinker.Proofs.Computation

namespace ModuleLinker

/-! # Readers that find the end of what they read

What a self-delimiting reader answers depends on the bytes that it takes and on nothing behind them. A
reader of counted lists does look at what lies behind, since it refuses a count above the number of bytes
that are left. The elements take one byte each at least, though, so a list that was read to its end has
shown that its count was no larger than that.
-/

/-! ## Moves of a cursor -/

namespace Cursor

/-- The cursor behind the first `n` bytes of `data`. -/
def behind (data : Bytes) (n : Nat) : Cursor := ⟨data.drop n, n⟩

/-- Between `c` and `c'` lie the bytes `taken`. -/
structure Moves (c : Cursor) (taken : Bytes) (c' : Cursor) : Prop where
  rest_eq : c.rest = taken ++ c'.rest
  position_eq : c'.position = c.position + taken.length

namespace Moves

variable {c c' c'' : Cursor} {a b : Bytes}

theorem refl (c : Cursor) : c.Moves [] c := ⟨rfl, rfl⟩

theorem trans (h : c.Moves a c') (h' : c'.Moves b c'') : c.Moves (a ++ b) c'' := by
  constructor
  · rw [h.rest_eq, h'.rest_eq, List.append_assoc]
  · rw [h'.position_eq, h.position_eq, List.length_append, Nat.add_assoc]

theorem split (h : c.Moves (a ++ b) c'') : ∃ c', c.Moves a c' ∧ c'.Moves b c'' := by
  refine ⟨⟨b ++ c''.rest, c.position + a.length⟩, ⟨?_, rfl⟩, ⟨rfl, ?_⟩⟩
  · rw [h.rest_eq, List.append_assoc]
  · rw [h.position_eq, List.length_append, Nat.add_assoc]

theorem eq_of_nil (h : c.Moves [] c') : c' = c := by
  rcases c with ⟨rest, position⟩
  rcases c' with ⟨rest', position'⟩
  obtain ⟨hrest, hposition⟩ := h
  simp only [List.nil_append, List.length_nil, Nat.add_zero] at hrest hposition
  rw [hrest, hposition]

/-- Between two places in the data lie the bytes there. -/
theorem of_drop {data : Bytes} {start : Nat} (h : data.drop start = a ++ data.drop (start + a.length)) :
    (behind data start).Moves a (behind data (start + a.length)) := ⟨h, rfl⟩

theorem eq_behind {data : Bytes} {start : Nat} (h : (behind data start).Moves a c') :
    c' = behind data (start + a.length) := by
  have hrest : c'.rest = data.drop (start + a.length) := by
    rw [← List.drop_drop]
    exact (List.drop_left' rfl).symm.trans (congrArg (List.drop a.length) h.rest_eq.symm)
  rcases c' with ⟨rest', position'⟩
  exact congrArg₂ Cursor.mk hrest h.position_eq

/-- Bytes that were put between others are passed over. -/
theorem of_append (before a other : Bytes) :
    (behind (before ++ a ++ other) before.length).Moves a
      (behind (before ++ a ++ other) (before.length + a.length)) := by
  refine of_drop ?_
  rw [← List.drop_drop, List.append_assoc, List.drop_left' rfl, List.drop_left' rfl]

end Moves

end Cursor

namespace Reader

open Cursor

/-! ## Readers that go forward -/

/-- Whether it answers or not, the reader leaves the cursor where it is or further on. -/
def Advances (r : Reader α) : Prop := ∀ c : Cursor, ∃ taken, c.Moves taken (r.runAt c).2

theorem advances_stepwise : Stepwise (m := Reader) fun _ r => r.Advances := by
  refine ⟨fun _ c => ⟨[], .refl c⟩, fun {α β r f} hr hf c => ?_⟩
  obtain ⟨taken, hfirst⟩ := hr c
  rw [runAt_bind]
  rcases hrun : r.runAt c with ⟨fault | v, c'⟩
  all_goals rw [hrun] at hfirst
  · exact ⟨taken, hfirst⟩
  · obtain ⟨more, hsecond⟩ := hf v c'
    exact ⟨taken ++ more, hfirst.trans hsecond⟩

theorem advances_throw {fault : Fault} : (MonadExcept.throw fault : Reader α).Advances :=
  fun c => ⟨[], .refl c⟩

theorem advances_refuse {cause : Malformation} : (refuse cause : Reader α).Advances := advances_throw

theorem advances_position : position.Advances := fun c => ⟨[], .refl c⟩

theorem advances_remaining : remaining.Advances := fun c => ⟨[], .refl c⟩

theorem advances_refuseAt {cause : Nat → Malformation} :
    (do refuse (cause (← position)) : Reader α).Advances :=
  advances_stepwise.bind advances_position fun _ => advances_refuse

theorem advances_byte : byte.Advances := by
  intro c
  rcases c with ⟨_ | ⟨b, rest⟩, position⟩
  · exact ⟨[], .refl _⟩
  · exact ⟨[b], rfl, rfl⟩

theorem advances_times {element : Reader α} (h : element.Advances) (n : Nat) :
    (times element n).Advances := by
  induction n with
  | zero => exact advances_stepwise.pure []
  | succ n ih =>
    exact advances_stepwise.bind h fun _ => advances_stepwise.bind ih fun _ => advances_stepwise.pure _

theorem advances_compressed : compressed.Advances := by
  have hbyte {β : Type} {f : UInt8 → Reader β} (hf : ∀ b, (f b).Advances) : (byte >>= f).Advances :=
    advances_stepwise.bind advances_byte hf
  unfold compressed
  refine hbyte fun lead => ?_
  split_ifs
  · exact advances_stepwise.pure _
  · exact hbyte fun _ => advances_stepwise.pure _
  · exact hbyte fun _ => hbyte fun _ => hbyte fun _ => advances_stepwise.pure _
  · exact advances_refuse

theorem advances_count : count.Advances := by
  unfold count
  refine advances_stepwise.bind advances_compressed fun n =>
    advances_stepwise.bind advances_remaining fun left => ?_
  split_ifs
  · exact advances_stepwise.bind advances_position fun _ =>
      advances_stepwise.bind advances_refuse fun _ => advances_stepwise.pure _
  · exact advances_stepwise.pure _

theorem advances_list {element : Reader α} (h : element.Advances) : (list element).Advances :=
  advances_stepwise.bind advances_count fun n => advances_times h n

/-! ## Bytes and answers -/

/-- Wherever the bytes stand, the reader takes them and answers `v`. -/
def Reads (r : Reader α) (taken : Bytes) (v : α) : Prop :=
  ∀ c c' : Cursor, c.Moves taken c' → r.runAt c = (.ok v, c')

/-- Whatever the reader answers, `q` holds of the answer and the bytes that it took. -/
def Accepts (r : Reader α) (q : α → Bytes → Prop) : Prop :=
  ∀ c v c', r.runAt c = (.ok v, c') → ∃ taken, c.Moves taken c' ∧ q v taken

namespace Reads

variable {r : Reader α} {f : α → Reader β} {a b : Bytes} {v : α} {w : β}

theorem pure (v : α) : (Pure.pure v : Reader α).Reads [] v := by
  intro c c' h
  rw [h.eq_of_nil]
  rfl

theorem bind (hr : r.Reads a v) (hf : (f v).Reads b w) : (r >>= f).Reads (a ++ b) w := by
  intro c c'' h
  obtain ⟨c', hfirst, hsecond⟩ := h.split
  rw [runAt_bind_of_ok (hr c c' hfirst)]
  exact hf c' c'' hsecond

/-- Behind the last part nothing is read. -/
theorem map (g : α → β) (hr : r.Reads a v) : (r >>= fun x => Pure.pure (g x)).Reads a (g v) := by
  have h := hr.bind (f := fun x => Pure.pure (g x)) (.pure (g v))
  rwa [List.append_nil] at h

end Reads

namespace Accepts

variable {r : Reader α} {f : α → Reader β} {q : α → Bytes → Prop} {p : β → Bytes → Prop}

theorem pure {v : α} (h : q v []) : (Pure.pure v : Reader α).Accepts q := by
  intro c v' c' hrun
  cases hrun
  exact ⟨[], .refl c, h⟩

theorem bind (hr : r.Accepts q) (hf : ∀ v a, q v a → (f v).Accepts fun w b => p w (a ++ b)) :
    (r >>= f).Accepts p := by
  intro c w c'' hrun
  obtain ⟨v, c', hread, hbehind⟩ := runAt_bind_eq_ok hrun
  obtain ⟨a, hfirst, hq⟩ := hr c v c' hread
  obtain ⟨b, hsecond, hp⟩ := hf v a hq c' w c'' hbehind
  exact ⟨a ++ b, hfirst.trans hsecond, hp⟩

theorem mono {q' : α → Bytes → Prop} (hr : r.Accepts q) (h : ∀ v a, q v a → q' v a) : r.Accepts q' := by
  intro c v c' hrun
  obtain ⟨taken, hmoves, hq⟩ := hr c v c' hrun
  exact ⟨taken, hmoves, h v taken hq⟩

theorem map {g : α → β} (hr : r.Accepts q) (hg : ∀ v a, q v a → p (g v) a) :
    (r >>= fun v => Pure.pure (g v)).Accepts p := by
  refine hr.bind fun v a hq => .pure ?_
  rw [List.append_nil]
  exact hg v a hq

/-- A reader that gives up accepts nothing. -/
theorem throw {fault : Fault} : (MonadExcept.throw fault : Reader α).Accepts q := by
  intro c v c' hrun
  exact nomatch hrun

theorem refuse {cause : Malformation} : (Reader.refuse cause : Reader α).Accepts q := throw

theorem refused {cause : Malformation} {f : α → Reader β} :
    (Reader.refuse cause >>= f).Accepts p :=
  bind (q := fun _ _ => False) refuse fun _ _ h => h.elim

end Accepts

theorem accepts_position : position.Accepts fun _ taken => taken = [] := by
  intro c v c' hrun
  cases hrun
  exact ⟨[], .refl c, rfl⟩

theorem accepts_remaining : remaining.Accepts fun _ taken => taken = [] := by
  intro c v c' hrun
  cases hrun
  exact ⟨[], .refl c, rfl⟩

theorem Accepts.refuseAt {cause : Nat → Malformation} {q : α → Bytes → Prop} :
    (do Reader.refuse (cause (← position)) : Reader α).Accepts q :=
  accepts_position.bind fun _ _ _ => .refuse

theorem accepts_byte : byte.Accepts fun b taken => taken = [b] := by
  intro c v c' hrun
  rcases c with ⟨_ | ⟨b, rest⟩, position⟩
  · exact nomatch hrun
  · cases hrun
    exact ⟨_, ⟨rfl, rfl⟩, rfl⟩

theorem reads_byte (b : UInt8) : byte.Reads [b] b := by
  intro c c' h
  rcases c with ⟨rest, position⟩
  have hrest : rest = b :: c'.rest := h.rest_eq
  have hposition : c'.position = position + 1 := h.position_eq
  subst hrest
  show (Except.ok b, Cursor.mk c'.rest (position + 1)) = (.ok b, c')
  rw [← hposition]

/-! ## Self-delimiting readers -/

/-- What the reader answers is settled by the bytes that it takes, and it needs all of them. -/
structure SelfDelimiting (r : Reader α) : Prop where
  /-- The reader stops between the place where it starts and the end of the data, also where it fails. -/
  stops (data : Bytes) (start : Nat) (hstart : start ≤ data.length) :
    ∃ stop, start ≤ stop ∧ stop ≤ data.length ∧ (r.runAt (.behind data start)).2 = .behind data stop
  /-- Behind any bytes and before any others, the bytes that were taken are taken again for the same. -/
  repeats (data : Bytes) (start k : Nat) (v : α)
    (hrun : r.runAt (.behind data start) = (.ok v, .behind data (start + k))) (before other : Bytes) :
    let data' := before ++ (data.drop start).take k ++ other
    r.runAt (.behind data' before.length) = (.ok v, .behind data' (before.length + k))
  /-- Where some of these bytes are missing at the end of the data, the reader fails. -/
  needsAll (data : Bytes) (start k : Nat) (v : α)
    (hrun : r.runAt (.behind data start) = (.ok v, .behind data (start + k))) (before : Bytes) (n : Nat)
    (hn : n < k) :
    ∃ fault, (r.runAt (.behind (before ++ (data.drop start).take n) before.length)).1 = .error fault

/-- A reader is self-delimiting if it goes forward and reads the bytes that it took wherever they stand. -/
theorem selfDelimiting_of {r : Reader α} (hforward : r.Advances)
    (hreads : r.Accepts fun v taken => r.Reads taken v) : r.SelfDelimiting := by
  -- the bytes that were taken are the `k` bytes at the place
  have htaken {data : Bytes} {start k : Nat} {v : α}
      (hrun : r.runAt (.behind data start) = (.ok v, .behind data (start + k))) :
      ((data.drop start).take k).length = k ∧ r.Reads ((data.drop start).take k) v := by
    obtain ⟨taken, hmoves, hread⟩ := hreads _ _ _ hrun
    have hlength : taken.length = k := Nat.add_left_cancel hmoves.position_eq.symm
    have htake : (data.drop start).take k = taken := by
      have hrest : data.drop start = taken ++ data.drop (start + k) := hmoves.rest_eq
      rw [hrest, List.take_left' hlength]
    rw [htake]
    exact ⟨hlength, hread⟩
  constructor
  case stops =>
    intro data start hstart
    obtain ⟨taken, hmoves⟩ := hforward (.behind data start)
    have hlength : taken.length ≤ (data.drop start).length := by
      have hrest : data.drop start = taken ++ _ := hmoves.rest_eq
      rw [hrest, List.length_append]
      exact Nat.le_add_right _ _
    rw [List.length_drop] at hlength
    exact ⟨start + taken.length, Nat.le_add_right _ _, by omega, hmoves.eq_behind⟩
  case repeats =>
    intro data start k v hrun before other
    obtain ⟨hlength, hread⟩ := htaken hrun
    have hmoves := Moves.of_append before ((data.drop start).take k) other
    rw [hlength] at hmoves
    exact hread _ _ hmoves
  case needsAll =>
    intro data start k v hrun before n hn
    rcases hshort : r.runAt (.behind (before ++ (data.drop start).take n) before.length) with ⟨fault | w, c'⟩
    · exact ⟨fault, rfl⟩
    · -- the shorter bytes would be read in the place of the longer ones, too
      exfalso
      obtain ⟨taken, hmoves, hread⟩ := hreads _ _ _ hshort
      have hrest : (data.drop start).take n = taken ++ c'.rest := by
        have h : (before ++ (data.drop start).take n).drop before.length = taken ++ c'.rest :=
          hmoves.rest_eq
        rwa [List.drop_left' rfl] at h
      have hle : taken.length ≤ n := by
        have h := congrArg List.length hrest
        rw [List.length_append, List.length_take] at h
        omega
      have hprefix : data.drop start = taken ++ data.drop (start + taken.length) := by
        have hsplit : data.drop start = taken ++ (c'.rest ++ (data.drop start).drop n) := by
          rw [← List.append_assoc, ← hrest, List.take_append_drop]
        rw [← List.drop_drop, hsplit, List.drop_left' rfl]
      have hagain := hread _ _ (Moves.of_drop hprefix)
      rw [hrun] at hagain
      have hposition : start + k = start + taken.length :=
        congrArg (fun answer => answer.2.position) hagain
      omega

/-! ## Compressed integers and counts -/

/-- Bytes that are a compressed integer: the two or three high bits of the lead byte tell how many bytes
there are. -/
inductive CompressedForm : Bytes → UInt32 → Prop where
  | one {lead : UInt8} (h : lead &&& 0x80 = 0) : CompressedForm [lead] lead.toUInt32
  | two {lead low : UInt8} (h : lead &&& 0xC0 = 0x80) :
    CompressedForm [lead, low] (((lead.toUInt32 &&& 0x3F) <<< 8) ||| low.toUInt32)
  | four {lead b₁ b₂ b₃ : UInt8} (h : lead &&& 0xE0 = 0xC0) :
    CompressedForm [lead, b₁, b₂, b₃] (((lead.toUInt32 &&& 0x1F) <<< 24) ||| (b₁.toUInt32 <<< 16) |||
      (b₂.toUInt32 <<< 8) ||| b₃.toUInt32)

theorem accepts_compressed : compressed.Accepts fun n taken => CompressedForm taken n := by
  unfold compressed
  refine accepts_byte.bind fun lead a ha => ?_
  subst ha
  split_ifs with hone htwo hfour
  · exact .pure (.one hone)
  · refine accepts_byte.bind fun low a ha => .pure ?_
    subst ha
    exact .two htwo
  · refine accepts_byte.bind fun b₁ a₁ h₁ => accepts_byte.bind fun b₂ a₂ h₂ =>
      accepts_byte.bind fun b₃ a₃ h₃ => .pure ?_
    subst h₁ h₂ h₃
    exact .four hfour
  · exact .refuse

/-- The lead bytes of the longer forms are not those of the shorter ones. -/
theorem lead_distinct : ∀ h < 256,
    (UInt8.ofNat h &&& 0xC0 = 0x80 → UInt8.ofNat h &&& 0x80 ≠ 0) ∧
    (UInt8.ofNat h &&& 0xE0 = 0xC0 → UInt8.ofNat h &&& 0x80 ≠ 0 ∧ UInt8.ofNat h &&& 0xC0 ≠ 0x80) := by
  decide +kernel

theorem CompressedForm.reads {taken : Bytes} {n : UInt32} (h : CompressedForm taken n) :
    compressed.Reads taken n := by
  unfold compressed
  cases h with
  | one h =>
    refine (reads_byte _).bind (b := []) ?_
    rw [if_pos h]
    exact .pure _
  | @two lead low h =>
    have hdistinct := lead_distinct lead.toNat lead.toNat_lt
    rw [UInt8.ofNat_toNat] at hdistinct
    refine (reads_byte _).bind (b := [low]) ?_
    rw [if_neg (hdistinct.1 h), if_pos h]
    exact (reads_byte _).map _
  | @four lead b₁ b₂ b₃ h =>
    have hdistinct := lead_distinct lead.toNat lead.toNat_lt
    rw [UInt8.ofNat_toNat] at hdistinct
    refine (reads_byte _).bind (b := [b₁, b₂, b₃]) ?_
    rw [if_neg (hdistinct.2 h).1, if_neg (hdistinct.2 h).2, if_pos h]
    exact (reads_byte _).bind ((reads_byte _).bind ((reads_byte _).map _))

theorem accepts_count : count.Accepts fun n taken => ∃ k, CompressedForm taken k ∧ n = k.toNat := by
  unfold count
  refine accepts_compressed.bind fun k a hk => accepts_remaining.bind fun left b hb => ?_
  subst hb
  split_ifs
  · exact accepts_position.bind fun _ _ _ => .refused
  · refine .pure ⟨k, ?_, rfl⟩
    rwa [List.append_nil, List.append_nil]

/-- A count is read if what is counted is long enough. -/
theorem reads_counted {a b : Bytes} {k : UInt32} (hk : CompressedForm a k) {f : Nat → Reader β} {w : β}
    (hle : k.toNat ≤ b.length) (hf : (f k.toNat).Reads b w) : (count >>= f).Reads (a ++ b) w := by
  intro c c'' h
  obtain ⟨c', hfirst, hsecond⟩ := h.split
  have hleft : ¬ c'.rest.length < k.toNat := by
    rw [hsecond.rest_eq, List.length_append]
    omega
  have hcount : count.runAt c = (.ok k.toNat, c') := by
    unfold count
    rw [runAt_bind_of_ok (hk.reads c c' hfirst), runAt_bind_of_ok (remaining_runAt c'), if_neg hleft]
    rfl
  rw [runAt_bind_of_ok hcount]
  exact hf c' c'' hsecond

end Reader

/-! ## Integers of a variable width, wherever they stand

Every length and every count is one of these integers, in the midst of other data. What is written for an
integer is read in any surroundings, and it is as short as it can be.
-/

namespace Reader

open Cursor

/-- Behind any bytes and before any others the reader answers `v` and takes exactly these bytes for it, and
nowhere does it take fewer for `v`. -/
structure Spells (r : Reader α) (written : Bytes) (v : α) : Prop where
  reads (before after : Bytes) : r.runAt (.behind (before ++ written ++ after) before.length) =
    (.ok v, .behind (before ++ written ++ after) (before.length + written.length))
  shortest (c c' : Cursor) : r.runAt c = (.ok v, c') → written.length + c'.rest.length ≤ c.rest.length

/-- What is read back and never takes fewer bytes is spelled so. -/
theorem spells_of {e : Encoding} {r : Reader α} {v : α} (hback : e.ReadsBack r v) (hfits : e.Fits)
    (htakes : r.Takes fun w n => w = v → e.bytes.length ≤ n) : r.Spells e.bytes v := by
  constructor
  case reads =>
    intro before after
    have hstart : behind (before ++ e.bytes ++ after) before.length = ⟨e.bytes ++ after, before.length⟩ := by
      rw [behind, List.append_assoc, List.drop_left' rfl]
    have hstop : behind (before ++ e.bytes ++ after) (before.length + e.bytes.length) =
        ⟨after, before.length + e.bytes.length⟩ := by
      rw [behind, List.drop_left' (List.length_append ..)]
    rw [hstart, hstop]
    exact hback hfits after before.length
  case shortest =>
    intro c c' hrun
    obtain ⟨n, hn, hle⟩ := htakes c v c' hrun
    have hshort := hle rfl
    omega

end Reader

namespace Encoding

/-- The compressed form holds 29 bits, and a larger number leaves nothing but a fault. -/
theorem compressed_of_lt {n : UInt32} (h : 0x1FFFFFFF < n.toNat) :
    compressed n = stop (.malformed (.compressedRange n)) := by
  have hnot {m : UInt32} (hm : m.toNat ≤ 0x1FFFFFFF) : ¬ n ≤ m := by
    rw [UInt32.le_iff_toNat_le]
    omega
  rw [compressed, if_neg (hnot (by decide)), if_neg (hnot (by decide)), if_neg (hnot (by decide))]

theorem spells_compressed {n : UInt32} (h : n.toNat ≤ 0x1FFFFFFF) :
    Reader.compressed.Spells (compressed n).bytes n := by
  have hwithin := within_compressed.2.2 h
  refine Reader.spells_of (readsBack_compressed n) ⟨hwithin.fault_eq, ?_⟩ ?_
  · exact lt_of_le_of_lt hwithin.length_le (by decide)
  · exact Reader.takes_compressed.mono fun w k hw heq => heq ▸ hw.length_le

theorem spells_sevenBit (n : UInt32) : Reader.sevenBit.Spells (sevenBit n) n := by
  have hgroups : (sevenBit n).length ≤ 5 :=
    length_sevenBit_le (by decide) (n.toNat_lt.trans (by decide))
  refine Reader.spells_of (readsBack_sevenBit n) ⟨rfl, ?_⟩ ?_
  · exact lt_of_le_of_lt hgroups (by decide)
  · exact Reader.takes_sevenBit.mono fun w k hw heq => heq ▸ hw

/-- An integer that is written behind other bytes is read there again, whatever follows, in exactly the bytes
that were written for it, and nothing shorter is read as this integer. In groups of seven bits this holds of
every integer. The compressed form is for those up to `0x1FFFFFFF`; a larger one is refused, and the bytes
before it stay as they are. -/
theorem integers_readBack (before : Bytes) (n : UInt32) :
    ((ofBytes before ++ compressed n).fault = none ↔ n.toNat ≤ 0x1FFFFFFF) ∧
    (n.toNat ≤ 0x1FFFFFFF → ∃ written, ofBytes before ++ compressed n = ofBytes (before ++ written) ∧
      Reader.compressed.Spells written n) ∧
    (0x1FFFFFFF < n.toNat →
      ofBytes before ++ compressed n = ⟨before, some (.malformed (.compressedRange n))⟩) ∧
    ∃ written, ofBytes before ++ ofBytes (sevenBit n) = ofBytes (before ++ written) ∧
      Reader.sevenBit.Spells written n := by
  have hlarge (h : 0x1FFFFFFF < n.toNat) :
      ofBytes before ++ compressed n = ⟨before, some (.malformed (.compressedRange n))⟩ := by
    rw [compressed_of_lt h]
    show append _ _ = _
    simp [append, ofBytes, stop]
  have hsmall (h : n.toNat ≤ 0x1FFFFFFF) :
      ofBytes before ++ compressed n = ofBytes (before ++ (compressed n).bytes) := by
    have hfault := (within_compressed.2.2 h).fault_eq
    show append _ _ = _
    simp [append, ofBytes, hfault]
  refine ⟨⟨fun hfault => ?_, fun h => ?_⟩, fun h => ⟨_, hsmall h, spells_compressed h⟩, hlarge,
    sevenBit n, ofBytes_append_ofBytes .., spells_sevenBit n⟩
  · by_contra hlt
    rw [hlarge (Nat.lt_of_not_le hlt)] at hfault
    cases hfault
  · rw [hsmall h]
    rfl

end Encoding

end ModuleLinker
