import Mathlib.Data.List.Perm.Basic

namespace ModuleLinker

/-! # Scans that drop repetitions

A list is gone through in its order, and an element stays if none before it has its key. What becomes
one in a merge, members of a type as well as types that claim a name, is found by such scans.
-/

/-- The elements whose key is neither among those seen nor that of an earlier element. -/
def firsts [DecidableEq κ] (key : α → κ) (seen : List κ) : List α → List α
  | [] => []
  | x :: xs => if key x ∈ seen then firsts key seen xs else x :: firsts key (seen ++ [key x]) xs

section

variable {κ : Type} [DecidableEq κ] {key : α → κ}

theorem firsts_sublist (key : α → κ) (seen : List κ) (xs : List α) :
    (firsts key seen xs).Sublist xs := by
  induction xs generalizing seen with
  | nil => exact List.Sublist.refl []
  | cons x xs ih =>
    rw [firsts]
    split
    · exact (ih seen).cons x
    · exact (ih _).cons_cons x

/-- Only which keys have been seen matters. -/
theorem firsts_congr {seen seen' : List κ} (h : ∀ k, k ∈ seen ↔ k ∈ seen') (xs : List α) :
    firsts key seen xs = firsts key seen' xs := by
  induction xs generalizing seen seen' with
  | nil => rfl
  | cons x xs ih =>
    have hx := h (key x)
    have hboth : ∀ k, k ∈ seen ++ [key x] ↔ k ∈ seen' ++ [key x] := by
      intro k
      rw [List.mem_append, List.mem_append, h k]
    rw [firsts, firsts]
    by_cases hseen : key x ∈ seen
    · rw [if_pos hseen, if_pos (hx.1 hseen), ih h]
    · rw [if_neg hseen, if_neg (fun hseen' => hseen (hx.2 hseen')), ih hboth]

/-- Nothing is dropped exactly if the keys are new and all different. -/
theorem firsts_eq_self {seen : List κ} {xs : List α} :
    firsts key seen xs = xs ↔ (∀ x ∈ xs, key x ∉ seen) ∧ (xs.map key).Nodup := by
  induction xs generalizing seen with
  | nil => exact iff_of_true rfl ⟨nofun, List.nodup_nil⟩
  | cons x xs ih =>
    rw [firsts, List.forall_mem_cons, List.map_cons, List.nodup_cons]
    by_cases hseen : key x ∈ seen
    · rw [if_pos hseen]
      apply iff_of_false
      · intro heq
        -- without `x` the scan is too short to be the whole list
        have hlength := (firsts_sublist key seen xs).length_le
        rw [heq, List.length_cons] at hlength
        omega
      · intro h
        exact h.1.1 hseen
    · rw [if_neg hseen, List.cons.injEq, ih]
      constructor
      · rintro ⟨-, hfresh, hnodup⟩
        have hsplit : ∀ y ∈ xs, key y ∉ seen ∧ key y ≠ key x := by
          intro y hy
          simpa using hfresh y hy
        refine ⟨⟨hseen, fun y hy => (hsplit y hy).1⟩, ?_, hnodup⟩
        intro hmem
        rcases List.mem_map.1 hmem with ⟨y, hy, heq⟩
        exact (hsplit y hy).2 heq
      · rintro ⟨⟨-, hfresh⟩, hx, hnodup⟩
        refine ⟨rfl, ?_, hnodup⟩
        intro y hy hmem
        rcases List.mem_append.1 hmem with hold | hnew
        · exact hfresh y hy hold
        · exact hx (List.mem_singleton.1 hnew ▸ List.mem_map_of_mem hy)

/-- What is kept makes up for everything exactly if all keys are different. -/
theorem map_firsts_perm {f : α → β} {xs : List α} :
    ((firsts key [] xs).map f).Perm (xs.map f) ↔ (xs.map key).Nodup := by
  have hself : firsts key [] xs = xs ↔ (xs.map key).Nodup := by
    rw [firsts_eq_self]
    exact ⟨fun h => h.2, fun h => ⟨fun _ _ => List.not_mem_nil, h⟩⟩
  rw [← hself]
  constructor
  · intro hperm
    have hlength := hperm.length_eq
    rw [List.length_map, List.length_map] at hlength
    exact (firsts_sublist key [] xs).eq_of_length hlength
  · intro heq
    rw [heq]

/-- The keys of what is kept are new and all different. -/
theorem nodup_map_firsts (key : α → κ) (seen : List κ) (xs : List α) :
    ((firsts key seen xs).map key).Nodup ∧ ∀ x ∈ firsts key seen xs, key x ∉ seen := by
  induction xs generalizing seen with
  | nil => exact ⟨List.nodup_nil, nofun⟩
  | cons x xs ih =>
    rw [firsts]
    split
    case isTrue => exact ih seen
    case isFalse hx =>
      obtain ⟨hnodup, hnew⟩ := ih (seen ++ [key x])
      have hsplit : ∀ y ∈ firsts key (seen ++ [key x]) xs, key y ∉ seen ∧ key y ≠ key x := by
        intro y hy
        simpa using hnew y hy
      constructor
      · rw [List.map_cons, List.nodup_cons]
        refine ⟨fun hmem => ?_, hnodup⟩
        obtain ⟨y, hy, heq⟩ := List.mem_map.1 hmem
        exact (hsplit y hy).2 heq
      · exact List.forall_mem_cons.2 ⟨hx, fun y hy => (hsplit y hy).1⟩

/-- A further element is kept behind the others if its key is new. -/
theorem firsts_append_singleton (key : α → κ) (seen : List κ) (xs : List α) (x : α) :
    firsts key seen (xs ++ [x]) =
      if key x ∈ seen ++ xs.map key then firsts key seen xs else firsts key seen xs ++ [x] := by
  induction xs generalizing seen with
  | nil => simp [firsts]
  | cons y xs ih =>
    rw [List.cons_append, firsts, firsts, ih, ih]
    by_cases hy : key y ∈ seen
    · -- nothing is seen with `y` that was not seen before
      have hmem : key x ∈ seen ++ (y :: xs).map key ↔ key x ∈ seen ++ xs.map key := by
        simp only [List.map_cons, List.mem_append, List.mem_cons]
        constructor
        · rintro (hseen | heq | hxs)
          · exact .inl hseen
          · exact .inl (heq ▸ hy)
          · exact .inr hxs
        · rintro (hseen | hxs)
          · exact .inl hseen
          · exact .inr (.inr hxs)
      simp only [if_pos hy, hmem]
    · simp only [if_neg hy, List.map_cons, List.append_assoc, List.singleton_append]
      split <;> rfl

/-- Changing elements before or after a scan makes no difference if their keys stay. -/
theorem map_firsts {f : α → β} {key : β → κ} (seen : List κ) (xs : List α) :
    (firsts (fun x => key (f x)) seen xs).map f = firsts key seen (xs.map f) := by
  induction xs generalizing seen with
  | nil => rfl
  | cons x xs ih =>
    rw [List.map_cons, firsts, firsts]
    split
    · exact ih seen
    · rw [List.map_cons, ih]

/-- Behind other elements a scan goes on with what has been seen in them. -/
theorem firsts_append (key : α → κ) (seen : List κ) (xs ys : List α) :
    firsts key seen (xs ++ ys) = firsts key seen xs ++ firsts key (seen ++ xs.map key) ys := by
  induction xs generalizing seen with
  | nil =>
    rw [List.map_nil, List.append_nil]
    rfl
  | cons x xs ih =>
    rw [List.cons_append, firsts, firsts, List.map_cons]
    split
    case isTrue hx =>
      have hseen : ∀ k, k ∈ seen ++ xs.map key ↔ k ∈ seen ++ key x :: xs.map key := by
        intro k
        simp only [List.mem_append, List.mem_cons]
        constructor
        · rintro (h | h)
          · exact .inl h
          · exact .inr (.inr h)
        · rintro (h | rfl | h)
          · exact .inl h
          · exact .inl hx
          · exact .inr h
      rw [ih, firsts_congr hseen]
    case isFalse =>
      rw [ih, List.cons_append, List.append_assoc, List.singleton_append]

/-- Keys that no element has do not matter. -/
theorem firsts_of_forall_not_mem {seen : List κ} {xs : List α} (h : ∀ x ∈ xs, key x ∉ seen)
    (seen' : List κ) : firsts key (seen ++ seen') xs = firsts key seen' xs := by
  induction xs generalizing seen' with
  | nil => rfl
  | cons x xs ih =>
    obtain ⟨hx, hxs⟩ := List.forall_mem_cons.1 h
    have hmem : key x ∈ seen ++ seen' ↔ key x ∈ seen' := by
      rw [List.mem_append, or_iff_right hx]
    rw [firsts, firsts, List.append_assoc, ih hxs, ih hxs]
    simp only [hmem]

/-- Of elements whose keys have all been seen none is kept. -/
theorem firsts_eq_nil {seen : List κ} {xs : List α} (h : ∀ x ∈ xs, key x ∈ seen) :
    firsts key seen xs = [] := by
  induction xs with
  | nil => rfl
  | cons x xs ih =>
    obtain ⟨hx, hxs⟩ := List.forall_mem_cons.1 h
    rw [firsts, if_pos hx, ih hxs]

theorem firsts_append_of_mem {xs ys : List α} (h : ∀ y ∈ ys, key y ∈ xs.map key) :
    firsts key [] (xs ++ ys) = firsts key [] xs := by
  rw [firsts_append, List.nil_append, firsts_eq_nil h, List.append_nil]

/-- Every new key is that of something that is kept. -/
theorem exists_mem_firsts {seen : List κ} {xs : List α} {x : α} (hx : x ∈ xs)
    (hnew : key x ∉ seen) : ∃ y ∈ firsts key seen xs, key y = key x := by
  induction xs generalizing seen with
  | nil => exact absurd hx List.not_mem_nil
  | cons z xs ih =>
    rw [firsts]
    split
    case isTrue hz =>
      rcases List.mem_cons.1 hx with rfl | hmem
      · exact absurd hz hnew
      · exact ih hmem hnew
    case isFalse hz =>
      by_cases heq : key x = key z
      · exact ⟨z, List.mem_cons_self, heq.symm⟩
      · rcases List.mem_cons.1 hx with rfl | hmem
        · exact absurd rfl heq
        · have hnext : key x ∉ seen ++ [key z] := by simp [hnew, heq]
          obtain ⟨y, hy, hkey⟩ := ih hmem hnext
          exact ⟨y, List.mem_cons_of_mem _ hy, hkey⟩

/-- What stands before an element that is kept has the key of something seen or kept before it. -/
theorem eq_append_of_firsts_eq {seen : List κ} {xs before after : List α} {x : α}
    (h : firsts key seen xs = before ++ x :: after) :
    ∃ before' after', xs = before' ++ x :: after' ∧
      ∀ y ∈ before', key y ∈ seen ∨ ∃ z ∈ before, key z = key y := by
  induction xs generalizing seen before with
  | nil => simp [firsts] at h
  | cons y xs ih =>
    rw [firsts] at h
    split at h
    case isTrue hy =>
      obtain ⟨before', after', rfl, hkeys⟩ := ih h
      exact ⟨y :: before', after', rfl, List.forall_mem_cons.2 ⟨.inl hy, hkeys⟩⟩
    case isFalse hy =>
      rcases before with _ | ⟨z, before⟩
      · obtain ⟨rfl, -⟩ := List.cons.inj h
        exact ⟨[], xs, rfl, nofun⟩
      · obtain ⟨rfl, hrest⟩ := List.cons.inj h
        obtain ⟨before', after', rfl, hkeys⟩ := ih hrest
        refine ⟨y :: before', after', rfl, List.forall_mem_cons.2 ⟨?_, ?_⟩⟩
        · exact .inr ⟨y, List.mem_cons_self, rfl⟩
        · intro w hw
          rcases hkeys w hw with hseen | ⟨z, hz, hkey⟩
          · rcases List.mem_append.1 hseen with hold | hlast
            · exact .inl hold
            · exact .inr ⟨y, List.mem_cons_self, (List.mem_singleton.1 hlast).symm⟩
          · exact .inr ⟨z, List.mem_cons_of_mem _ hz, hkey⟩

end

/-- Of elements with different keys only one has the key of a given one. -/
theorem filter_key_eq [BEq β] [LawfulBEq β] {key : α → β} {xs : List α} {x : α} (hx : x ∈ xs)
    (hnodup : (xs.map key).Nodup) : (xs.filter fun y => key y == key x) = [x] := by
  induction xs with
  | nil => exact absurd hx List.not_mem_nil
  | cons y xs ih =>
    rw [List.map_cons, List.nodup_cons] at hnodup
    rcases List.mem_cons.1 hx with rfl | hmem
    · have hnone : (xs.filter fun y => key y == key x) = [] := by
        rw [List.filter_eq_nil_iff]
        intro y hy hbeq
        exact hnodup.1 (beq_iff_eq.1 hbeq ▸ List.mem_map_of_mem hy)
      rw [List.filter_cons, if_pos (beq_self_eq_true _), hnone]
    · have hne : (key y == key x) = false := by
        refine beq_eq_false_iff_ne.2 fun heq => ?_
        exact hnodup.1 (heq ▸ List.mem_map_of_mem hmem)
      rw [List.filter_cons, hne, if_neg Bool.false_ne_true, ih hmem hnodup.2]

/-- Where no key is there twice, what is found under a key is what is there with it. -/
theorem lookup_eq_some_iff_mem [DecidableEq κ] {entries : List (κ × α)}
    (hnodup : (entries.map Prod.fst).Nodup) {key : κ} {value : α} :
    entries.lookup key = some value ↔ (key, value) ∈ entries := by
  induction entries with
  | nil => simp
  | cons entry entries ih =>
    obtain ⟨other, first⟩ := entry
    rw [List.map_cons, List.nodup_cons] at hnodup
    dsimp only at hnodup
    rw [List.mem_cons, ← ih hnodup.2]
    by_cases hkey : key = other
    · subst hkey
      have hnone : entries.lookup key = none := by
        rw [List.lookup_eq_none_iff]
        intro other hother
        simpa using fun heq : key = other.1 => hnodup.1 (heq ▸ List.mem_map_of_mem hother)
      rw [List.lookup_cons_self, hnone]
      simp [eq_comm]
    · have hbeq : (key == other) = false := beq_false_of_ne hkey
      rw [List.lookup_cons, hbeq]
      simp [hkey]

/-- Dropping the entries of some keys leaves what is found under the others. -/
theorem lookup_filter_fst [BEq κ] [LawfulBEq κ] (keep : κ → Bool) (entries : List (κ × α)) (k : κ) :
    (entries.filter fun e => keep e.1).lookup k = if keep k then entries.lookup k else none := by
  induction entries with
  | nil => simp
  | cons e entries ih =>
    rw [List.filter_cons]
    by_cases hk : k = e.1
    · subst hk
      by_cases hkeep : keep e.1
      · rw [if_pos hkeep, if_pos hkeep, List.lookup_cons_self, List.lookup_cons_self]
      · simp [hkeep, ih]
    · have hne : (k == e.1) = false := by simpa using hk
      rw [List.lookup_cons, hne]
      split
      · rw [List.lookup_cons, hne]
        exact ih
      · exact ih

theorem lookup_filter_ne [BEq κ] [LawfulBEq κ] {t u : κ} (h : u ≠ t) (entries : List (κ × α)) :
    (entries.filter fun entry => entry.1 != t).lookup u = entries.lookup u :=
  (lookup_filter_fst (· != t) entries u).trans (if_pos (by simpa using h))

/-- Of two lists that are related element by element, each element of the first is related to one of the
second. -/
theorem exists_mem_of_forall₂ {r : α → β → Prop} {xs : List α} {ys : List β} (h : List.Forall₂ r xs ys)
    {x : α} (hx : x ∈ xs) : ∃ y ∈ ys, r x y := by
  induction h with
  | nil => exact nomatch hx
  | cons hfirst _ ih =>
    rcases List.mem_cons.1 hx with rfl | hx
    · exact ⟨_, List.mem_cons_self, hfirst⟩
    · obtain ⟨y, hy, hrel⟩ := ih hx
      exact ⟨y, List.mem_cons_of_mem _ hy, hrel⟩

end ModuleLinker
