import Mathlib.Data.List.Sort
import ModuleLinker.Text.CharClass

namespace ModuleLinker.CharSet

/-! # Sets from ranges

A set that is made of ranges has the code points of these ranges and no others, whatever their order and
however they overlap.
-/

/-- The code points of some ranges. -/
def Covers (ranges : List (Nat × Nat)) (n : Nat) : Prop := ∃ r ∈ ranges, r.1 ≤ n ∧ n ≤ r.2

instance (ranges : List (Nat × Nat)) (n : Nat) : Decidable (Covers ranges n) :=
  inferInstanceAs (Decidable (∃ r ∈ ranges, r.1 ≤ n ∧ n ≤ r.2))

theorem hasCode_iff {n : Nat} {s : CharSet} : s.hasCode n ↔ Covers s.ranges n := by
  simp [hasCode, Covers]

theorem covers_cons {r : Nat × Nat} {ranges : List (Nat × Nat)} {n : Nat} :
    Covers (r :: ranges) n ↔ (r.1 ≤ n ∧ n ≤ r.2) ∨ Covers ranges n := by
  simp [Covers]

/-- Joining ranges that ascend changes nothing about what they cover. -/
theorem covers_joinRanges {low high n : Nat} {ranges : List (Nat × Nat)}
    (hsorted : ((low, high) :: ranges).Pairwise fun a b => a.1 ≤ b.1) :
    Covers (joinRanges low high ranges) n ↔ Covers ((low, high) :: ranges) n := by
  induction ranges generalizing low high with
  | nil => rfl
  | cons r rest ih =>
    obtain ⟨first, last⟩ := r
    obtain ⟨hlow, hrest⟩ := List.pairwise_cons.1 hsorted
    have hfirst : low ≤ first := hlow _ List.mem_cons_self
    rw [joinRanges]
    split
    case isTrue htouch =>
      have hjoined : ((low, max high last) :: rest).Pairwise fun a b => a.1 ≤ b.1 :=
        List.pairwise_cons.2 ⟨fun b hb => hlow b (List.mem_cons_of_mem _ hb), (List.pairwise_cons.1 hrest).2⟩
      rw [ih hjoined, covers_cons, covers_cons, covers_cons, ← or_assoc]
      refine or_congr_left ?_
      dsimp only
      omega
    case isFalse => rw [covers_cons, covers_cons, ih hrest]

theorem covers_filter {ranges : List (Nat × Nat)} {n : Nat} :
    Covers (ranges.filter fun (low, high) => decide (low ≤ high)) n ↔ Covers ranges n := by
  constructor
  · rintro ⟨r, hr, hbounds⟩
    exact ⟨r, (List.mem_filter.1 hr).1, hbounds⟩
  · rintro ⟨r, hr, hbounds⟩
    exact ⟨r, List.mem_filter.2 ⟨hr, decide_eq_true (Nat.le_trans hbounds.1 hbounds.2)⟩, hbounds⟩

theorem hasCode_ofRanges {ranges : List (Nat × Nat)} {n : Nat} :
    (ofRanges ranges).hasCode n ↔ Covers ranges n := by
  have hperm := List.mergeSort_perm (ranges.filter fun (low, high) => decide (low ≤ high))
    fun a b => decide (a.1 ≤ b.1)
  have hcovers : Covers ranges n ↔ Covers ((ranges.filter fun (low, high) =>
      decide (low ≤ high)).mergeSort fun a b => decide (a.1 ≤ b.1)) n := by
    rw [← covers_filter]
    exact exists_congr fun r => and_congr_left fun _ => hperm.mem_iff.symm
  have hsorted : ((ranges.filter fun (low, high) => decide (low ≤ high)).mergeSort
      fun a b => decide (a.1 ≤ b.1)).Pairwise fun a b => a.1 ≤ b.1 := by
    refine (List.pairwise_mergeSort ?_ ?_ _).imp fun h => of_decide_eq_true h
    · intro a b c hab hbc
      exact decide_eq_true (Nat.le_trans (of_decide_eq_true hab) (of_decide_eq_true hbc))
    · intro a b
      simpa using Nat.le_total a.1 b.1
  rw [hasCode_iff, hcovers, ofRanges]
  dsimp only
  split
  case h_1 hnil => rw [hnil]
  case h_2 low high rest hcons =>
    rw [hcons] at hsorted ⊢
    exact covers_joinRanges hsorted

end ModuleLinker.CharSet
