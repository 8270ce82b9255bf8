import ModuleLinker.Proofs.Bytes.WriteBack

namespace ModuleLinker

/-! # Reading back what is written at any length

An image is refused if its length takes more than 32 bits, other files are not. What is written into them
is read back at any length, as long as every single text is within 32 bits, and the number of elements of
every list.
-/

namespace Encoding

/-- Where nothing stopped the writing, the reader takes exactly the bytes and answers `v`, however many
they are. -/
def ReadsWhole (e : Encoding) (r : Reader α) (v : α) : Prop :=
  e.fault = none → ∀ rest position,
    r.runAt ⟨e.bytes ++ rest, position⟩ = (.ok v, ⟨rest, position + e.bytes.length⟩)

/-- What is read back at all is read back whole if it is short. -/
theorem ReadsBack.whole {e : Encoding} {r : Reader α} {v : α} (h : e.ReadsBack r v)
    (hlength : e.bytes.length < UInt32.size) : e.ReadsWhole r v :=
  fun hfault => h ⟨hfault, hlength⟩

namespace ReadsWhole

variable {a b : Encoding} {r : Reader α} {f : α → Reader β} {v : α} {w : β}

theorem bind (ha : a.ReadsWhole r v) (hb : b.ReadsWhole (f v) w) : (a ++ b).ReadsWhole (r >>= f) w := by
  intro hfault rest position
  obtain ⟨hleft, hright⟩ := fault_append.1 hfault
  rw [bytes_append hleft, List.append_assoc, Reader.runAt_bind_of_ok (ha hleft (b.bytes ++ rest) position),
    hb hright rest (position + a.bytes.length), List.length_append, Nat.add_assoc]

theorem pure (v : α) : empty.ReadsWhole (Pure.pure v) v := fun _ _ _ => rfl

theorem last (ha : a.ReadsWhole r v) (hf : f v = Pure.pure w) : a.ReadsWhole (r >>= f) w := by
  have h := ha.bind (f := f) (hf ▸ ReadsWhole.pure w)
  rwa [append_empty] at h

end ReadsWhole

/-! ## Parts -/

theorem readsWhole_bytes (b : Bytes) : (ofBytes b).ReadsWhole (Reader.bytes b.length) b :=
  fun _ rest position => Reader.bytes_runAt b rest position

theorem readsWhole_u16 (n : UInt16) : (u16 n).ReadsWhole Reader.u16 n :=
  (readsBack_u16 n).whole (show 2 < UInt32.size by decide)

theorem readsWhole_u32 (n : UInt32) : (u32 n).ReadsWhole Reader.u32 n :=
  (readsBack_u32 n).whole (show 4 < UInt32.size by decide)

theorem readsWhole_token (t : Token) : (token t).ReadsWhole Reader.token t :=
  (readsBack_token t).whole (show 4 < UInt32.size by decide)

theorem readsWhole_sevenBit (n : UInt32) : (ofBytes (sevenBit n)).ReadsWhole Reader.sevenBit n := by
  have hgroups : (sevenBit n).length ≤ 5 :=
    length_sevenBit_le (by decide) ((UInt32.toNat_lt _).trans (by decide))
  exact (readsBack_sevenBit n).whole (lt_of_le_of_lt hgroups (by decide))

/-- Bytes whose number 32 bits hold are read back, though their number and they may need more room. -/
theorem readsWhole_blob {b : Bytes} (h : b.length < UInt32.size) : (blob b).ReadsWhole Reader.blob b := by
  have hcount : (UInt32.ofNat b.length).toNat = b.length := by
    rw [UInt32.toNat_ofNat', Nat.mod_eq_of_lt h]
  have hbytes : (ofBytes b).ReadsWhole (Reader.bytes (UInt32.ofNat b.length).toNat) b := by
    rw [hcount]
    exact readsWhole_bytes b
  exact (readsWhole_sevenBit _).bind (f := fun n => Reader.bytes n.toNat) hbytes

theorem readsWhole_text {s : String} (h : (Utf8.encode s).length < UInt32.size) :
    (text s).ReadsWhole Reader.text s := by
  refine (readsWhole_blob h).last ?_
  rw [decode_encode]

theorem length_compressed_lt (n : UInt32) : (compressed n).bytes.length < UInt32.size := by
  unfold compressed
  split_ifs <;> exact of_decide_eq_true rfl

/-! ## Lists -/

section

variable {encode : α → Encoding} {read : Reader α} {xs : List α}

theorem readsWhole_each (h : ∀ x ∈ xs, (encode x).ReadsWhole read x) :
    (each encode xs).ReadsWhole (Reader.times read xs.length) xs := by
  induction xs with
  | nil => exact .pure []
  | cons x xs ih =>
    have htail := ih fun y hy => h y (List.mem_cons_of_mem x hy)
    exact (h x List.mem_cons_self).bind (htail.last rfl)

/-- A counted list of elements that take a byte each. -/
theorem readsWhole_list (h : ∀ x ∈ xs, (encode x).ReadsWhole read x)
    (hne : ∀ x ∈ xs, (encode x).bytes ≠ []) : (list encode xs).ReadsWhole (Reader.list read) xs := by
  unfold list count
  split
  case isFalse =>
    intro hfault
    exact nomatch (fault_append.1 hfault).1
  case isTrue hsize =>
    intro hfault rest position
    obtain ⟨hcount, hbody⟩ := fault_append.1 hfault
    have hfits : (compressed (UInt32.ofNat xs.length)).Fits := ⟨hcount, length_compressed_lt _⟩
    have hbehind : xs.length ≤ ((each encode xs).bytes ++ rest).length := by
      rw [List.length_append]
      exact (length_le_each hne hbody).trans (Nat.le_add_right ..)
    unfold Reader.list
    rw [bytes_append hcount, List.append_assoc,
      Reader.runAt_bind_of_ok (count_runAt hfits hsize hbehind position), readsWhole_each h hbody,
      List.length_append, Nat.add_assoc]

end

end Encoding

end ModuleLinker
