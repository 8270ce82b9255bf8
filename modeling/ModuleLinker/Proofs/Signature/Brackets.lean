import Mathlib.Data.List.Basic

namespace ModuleLinker

/-! # Texts in brackets

The text of a generic type applied to arguments ends with the texts of the arguments in angle
brackets, with commas between them. As these texts have their own brackets closed, it can be taken
apart again: the bracket that opens is the one that the last one closes, and an argument ends at the
first comma that stands outside of its brackets.
-/

/-- Two ways of splitting a text at a character are one, or one of them splits a part of the
other. -/
theorem append_cons_cases {u v u' v' : List α} {c : α} (h : u ++ c :: v = u' ++ c :: v') :
    (u = u' ∧ v = v') ∨ (∃ m, u' = u ++ c :: m ∧ v = m ++ c :: v') ∨
      ∃ m, u = u' ++ c :: m ∧ v' = m ++ c :: v := by
  rcases List.append_eq_append_iff.1 h with ⟨m, hu, hv⟩ | ⟨m, hu, hv⟩
  · rcases m with _ | ⟨d, m⟩
    · exact .inl ⟨by rw [hu, List.append_nil], (List.cons.inj hv).2⟩
    · obtain ⟨rfl, hrest⟩ := List.cons.inj hv
      exact .inr (.inl ⟨m, hu, hrest⟩)
  · rcases m with _ | ⟨d, m⟩
    · exact .inl ⟨by rw [hu, List.append_nil], (List.cons.inj hv).2.symm⟩
    · obtain ⟨rfl, hrest⟩ := List.cons.inj hv
      exact .inr (.inr ⟨m, hu, hrest⟩)

/-- Splits after which the character does not come again are one. -/
theorem eq_of_append_cons_eq {u v u' v' : List α} {c : α} (h : u ++ c :: v = u' ++ c :: v')
    (hv : c ∉ v) (hv' : c ∉ v') : u = u' ∧ v = v' := by
  rcases append_cons_cases h with heq | ⟨m, -, rfl⟩ | ⟨m, -, rfl⟩
  · exact heq
  · exact absurd (List.mem_append_right _ List.mem_cons_self) hv
  · exact absurd (List.mem_append_right _ List.mem_cons_self) hv'

/-! ## Depth -/

/-- What a character does to the number of open brackets. -/
def bracketWeight (c : Char) : Int := if c = '<' then 1 else if c = '>' then -1 else 0

/-- The number of brackets that a text opens and does not close. -/
def bracketDepth : List Char → Int
  | [] => 0
  | c :: w => bracketWeight c + bracketDepth w

@[simp] theorem bracketDepth_nil : bracketDepth [] = 0 := rfl

@[simp] theorem bracketDepth_cons (c : Char) (w : List Char) :
    bracketDepth (c :: w) = bracketWeight c + bracketDepth w := rfl

@[simp] theorem bracketDepth_append (u v : List Char) :
    bracketDepth (u ++ v) = bracketDepth u + bracketDepth v := by
  induction u with
  | nil => rw [List.nil_append, bracketDepth_nil, Int.zero_add]
  | cons c u ih => rw [List.cons_append, bracketDepth_cons, bracketDepth_cons, ih, Int.add_assoc]

/-- A text in which every bracket is closed, and none before it is opened. -/
structure Balanced (w : List Char) : Prop where
  depth : bracketDepth w = 0
  nonneg : ∀ u v, w = u ++ v → 0 ≤ bracketDepth u

/-- A balanced text with commas only inside of brackets. -/
structure Enclosed (w : List Char) : Prop extends Balanced w where
  comma : ∀ u v, w = u ++ ',' :: v → 0 < bracketDepth u

theorem Balanced.nil : Balanced [] := by
  refine ⟨rfl, fun u v h => ?_⟩
  obtain ⟨rfl, -⟩ := List.nil_eq_append_iff.1 h
  exact Int.le_refl _

theorem Balanced.append {x y : List Char} (hx : Balanced x) (hy : Balanced y) :
    Balanced (x ++ y) := by
  constructor
  · rw [bracketDepth_append, hx.depth, hy.depth, Int.add_zero]
  · intro u v h
    rcases List.append_eq_append_iff.1 h with ⟨m, rfl, hm⟩ | ⟨m, hm, -⟩
    · -- all of the first text, and some of the second one
      have hrest := hy.nonneg m v hm
      rwa [bracketDepth_append, hx.depth, Int.zero_add]
    · exact hx.nonneg u m hm

theorem Enclosed.append {x y : List Char} (hx : Enclosed x) (hy : Enclosed y) :
    Enclosed (x ++ y) := by
  refine ⟨hx.toBalanced.append hy.toBalanced, fun u v h => ?_⟩
  rcases List.append_eq_append_iff.1 h with ⟨m, rfl, hm⟩ | ⟨m, hm, hrest⟩
  · have hcomma := hy.comma m v hm
    rwa [bracketDepth_append, hx.depth, Int.zero_add]
  · rcases m with _ | ⟨d, m⟩
    · -- the comma is the first character of the second text
      have hcomma := hy.comma [] v hrest.symm
      exact absurd hcomma (Int.lt_irrefl 0)
    · obtain ⟨rfl, -⟩ := List.cons.inj hrest
      exact hx.comma u m hm

/-- A text without brackets and commas has nothing to close. -/
theorem enclosed_of_forall {w : List Char} (h : ∀ c ∈ w, c ≠ '<' ∧ c ≠ '>' ∧ c ≠ ',') :
    Enclosed w := by
  have hdepth : ∀ u, (∀ c ∈ u, c ∈ w) → bracketDepth u = 0 := by
    intro u hu
    induction u with
    | nil => rfl
    | cons c u ih =>
      obtain ⟨hc, hrest⟩ := List.forall_mem_cons.1 hu
      obtain ⟨hopen, hclose, -⟩ := h c hc
      rw [bracketDepth_cons, bracketWeight, if_neg hopen, if_neg hclose, ih hrest, Int.zero_add]
  refine ⟨⟨hdepth w fun _ hc => hc, ?_⟩, ?_⟩
  · rintro u v rfl
    exact Int.le_of_eq (hdepth u fun c hc => List.mem_append_left _ hc).symm
  · rintro u v rfl
    exact absurd rfl (h ',' (List.mem_append_right _ List.mem_cons_self)).2.2

/-- In brackets, a balanced text may have commas anywhere. -/
theorem Balanced.enclosed {w : List Char} (h : Balanced w) : Enclosed ('<' :: (w ++ ['>'])) := by
  have hopen : bracketWeight '<' = 1 := rfl
  have hclose : bracketWeight '>' = -1 := rfl
  -- what is behind the first bracket is some of the text, or all of it with the second bracket
  have hinner : ∀ u v, w ++ ['>'] = u ++ v → 0 ≤ bracketDepth u ∨ v = [] := by
    intro u v hu
    rcases List.append_eq_append_iff.1 hu with ⟨m, rfl, hm⟩ | ⟨m, hm, -⟩
    · rcases List.cons_eq_append_iff.1 hm with ⟨rfl, -⟩ | ⟨m', rfl, hm'⟩
      · refine .inl ?_
        rw [bracketDepth_append, h.depth]
        exact Int.le_refl _
      · exact .inr (List.nil_eq_append_iff.1 hm').2
    · exact .inl (h.nonneg u m hm)
  have hdepth : bracketDepth ('<' :: (w ++ ['>'])) = 0 := by
    simp [h.depth, hopen, hclose]
  refine ⟨⟨hdepth, ?_⟩, ?_⟩
  · intro u v hu
    rcases List.cons_eq_append_iff.1 hu with ⟨rfl, -⟩ | ⟨u', rfl, hu'⟩
    · exact Int.le_refl _
    · rcases hinner u' v hu' with hpos | rfl
      · rw [bracketDepth_cons, hopen]
        omega
      · rw [List.append_nil] at hu
        exact Int.le_of_eq (hu ▸ hdepth).symm
  · intro u v hu
    rcases List.cons_eq_append_iff.1 hu with ⟨rfl, hcomma⟩ | ⟨u', rfl, hu'⟩
    · exact absurd (List.cons.inj hcomma).1 (by decide)
    · rcases hinner u' _ hu' with hpos | hnil
      · rw [bracketDepth_cons, hopen]
        omega
      · exact absurd hnil (List.cons_ne_nil _ _)

/-! ## Arguments -/

theorem Balanced.intercalate {xs : List (List Char)} (h : ∀ x ∈ xs, Balanced x) :
    Balanced ([','].intercalate xs) := by
  induction xs with
  | nil => exact .nil
  | cons x xs ih =>
    obtain ⟨hx, hxs⟩ := List.forall_mem_cons.1 h
    rcases xs with _ | ⟨y, ys⟩
    · rw [List.intercalate_singleton]
      exact hx
    · have hcomma : Balanced [','] := by
        refine ⟨rfl, fun u v hu => ?_⟩
        rcases List.cons_eq_append_iff.1 hu with ⟨rfl, -⟩ | ⟨u', rfl, hu'⟩
        · exact Int.le_refl _
        · obtain ⟨rfl, -⟩ := List.nil_eq_append_iff.1 hu'
          exact Int.le_refl _
      rw [List.intercalate_cons_cons]
      exact (hx.append hcomma).append (ih hxs)

/-- Before balanced texts, the bracket that opens is the same one. -/
theorem eq_of_open_eq {u v u' v' : List Char} (hv : Balanced v) (hv' : Balanced v')
    (h : u ++ '<' :: v = u' ++ '<' :: v') : u = u' ∧ v = v' := by
  -- were there two, the text behind the first one would close a bracket that it has not opened
  have hone : ∀ {m w w' : List Char}, Balanced w → Balanced w' → w ≠ m ++ '<' :: w' := by
    rintro m w w' hw hw' rfl
    have hpos := hw.nonneg m _ rfl
    have hdepth := hw.depth
    rw [bracketDepth_append, bracketDepth_cons, hw'.depth] at hdepth
    have hopen : bracketWeight '<' = 1 := rfl
    omega
  rcases append_cons_cases h with heq | ⟨m, -, hm⟩ | ⟨m, -, hm⟩
  · exact heq
  · exact absurd hm (hone hv hv')
  · exact absurd hm (hone hv' hv)

/-- Behind enclosed texts, the comma is the same one. -/
theorem eq_of_comma_eq {u v u' v' : List Char} (hu : Enclosed u) (hu' : Enclosed u')
    (h : u ++ ',' :: v = u' ++ ',' :: v') : u = u' ∧ v = v' := by
  rcases append_cons_cases h with heq | ⟨m, hm, -⟩ | ⟨m, hm, -⟩
  · exact heq
  · exact absurd hu.depth (Int.ne_of_gt (hu'.comma u m hm))
  · exact absurd hu'.depth (Int.ne_of_gt (hu.comma u' m hm))

/-- Enclosed texts with commas between them can be taken apart again. -/
theorem eq_of_intercalate_eq {xs ys : List (List Char)} (hxs : ∀ x ∈ xs, Enclosed x ∧ x ≠ [])
    (hys : ∀ y ∈ ys, Enclosed y ∧ y ≠ [])
    (h : [','].intercalate xs = [','].intercalate ys) : xs = ys := by
  induction xs generalizing ys with
  | nil =>
    rcases ys with _ | ⟨y, _ | ⟨z, zs⟩⟩
    · rfl
    · rw [List.intercalate_nil, List.intercalate_singleton] at h
      exact absurd h.symm (hys y List.mem_cons_self).2
    · rw [List.intercalate_nil, List.intercalate_cons_cons] at h
      simp at h
  | cons x xs ih =>
    obtain ⟨⟨hx, hne⟩, hrest⟩ := List.forall_mem_cons.1 hxs
    rcases ys with _ | ⟨y, ys⟩
    · rcases xs with _ | ⟨x', xs⟩
      · rw [List.intercalate_nil, List.intercalate_singleton] at h
        exact absurd h hne
      · rw [List.intercalate_nil, List.intercalate_cons_cons] at h
        simp at h
    · obtain ⟨⟨hy, -⟩, hrest'⟩ := List.forall_mem_cons.1 hys
      rcases xs with _ | ⟨x', xs⟩ <;> rcases ys with _ | ⟨y', ys⟩
      · rw [List.intercalate_singleton, List.intercalate_singleton] at h
        rw [h]
      · -- a single text has no comma outside of its brackets
        rw [List.intercalate_singleton, List.intercalate_cons_cons, List.append_assoc] at h
        exact absurd hy.depth (Int.ne_of_gt (hx.comma y _ h))
      · rw [List.intercalate_singleton, List.intercalate_cons_cons, List.append_assoc] at h
        exact absurd hx.depth (Int.ne_of_gt (hy.comma x _ h.symm))
      · rw [List.intercalate_cons_cons, List.intercalate_cons_cons, List.append_assoc,
          List.append_assoc] at h
        obtain ⟨rfl, htail⟩ := eq_of_comma_eq hx hy h
        rw [ih hrest hrest' htail]

end ModuleLinker
