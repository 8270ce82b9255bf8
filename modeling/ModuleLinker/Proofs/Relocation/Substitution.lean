import ModuleLinker.Proofs.Member
import ModuleLinker.Proofs.Repetition
import ModuleLinker.Relocation.Substitution

namespace ModuleLinker

/-! # Lookups in substitutions

What a substitution answers after an insertion, and the replacement of tokens that it amounts to.
-/

namespace Substitution

theorem get?_empty (t : SourceToken) : empty.get? t = none := rfl

theorem get?_insert_self (s : Substitution) (t : SourceToken) (new : Token) :
    (s.insert t new).get? t = some new := by
  simp [insert, get?]

theorem get?_insert_of_ne (s : Substitution) {t u : SourceToken} (h : u ≠ t) (new : Token) :
    (s.insert t new).get? u = s.get? u := by
  have hbeq : (u == t) = false := by simpa using h
  unfold insert get?
  rw [List.lookup_cons, hbeq, lookup_filter_ne h]

theorem get?_insert (s : Substitution) (t u : SourceToken) (new : Token) :
    (s.insert t new).get? u = if u = t then some new else s.get? u := by
  split
  case isTrue h => rw [h, get?_insert_self]
  case isFalse h => exact get?_insert_of_ne s h new

/-! ## Resolving -/

/-- A token that is resolved is shared by all modules or has its counterpart. -/
theorem resolve_eq_ok {s : Substitution} {source : Nat} {t new : Token}
    (h : s.resolve source t = .ok new) :
    isShared t ∧ new = t ∨ ¬ isShared t ∧ s.get? ⟨source, t⟩ = some new := by
  unfold resolve at h
  by_cases hshared : isShared t
  · rw [if_pos hshared] at h
    exact .inl ⟨hshared, (Except.ok.inj h).symm⟩
  · rw [if_neg hshared] at h
    rcases hget : s.get? ⟨source, t⟩ with _ | u
    · rw [hget] at h
      exact nomatch h
    · rw [hget] at h
      exact .inr ⟨hshared, congrArg some (Except.ok.inj h)⟩

theorem resolve_of_isShared {s : Substitution} {source : Nat} {t : Token} (h : isShared t) :
    s.resolve source t = .ok t := by
  rw [resolve, if_pos h]

theorem resolve_of_get? {s : Substitution} {source : Nat} {t new : Token} (h : ¬ isShared t)
    (hget : s.get? ⟨source, t⟩ = some new) : s.resolve source t = .ok new := by
  rw [resolve, if_neg h, hget]

theorem resolve_eq_error {s : Substitution} {source : Nat} {t : Token} {fault : Fault}
    (h : s.resolve source t = .error fault) :
    fault = .unbound (.substitution t source) ∧ ¬ isShared t ∧ s.get? ⟨source, t⟩ = none := by
  unfold resolve at h
  by_cases hshared : isShared t
  · rw [if_pos hshared] at h
    exact nomatch h
  · rw [if_neg hshared] at h
    rcases hget : s.get? ⟨source, t⟩ with _ | new
    · rw [hget] at h
      exact ⟨(Except.error.inj h).symm, hshared, rfl⟩
    · rw [hget] at h
      exact nomatch h

/-- What becomes of the tokens of a module; a token without a counterpart stays. -/
def counterpart (s : Substitution) (source : Nat) (t : Token) : Token :=
  if isShared t then t else (s.get? ⟨source, t⟩).getD t

theorem counterpart_of_get? {s : Substitution} {source : Nat} {t new : Token} (h : ¬ isShared t)
    (hget : s.get? ⟨source, t⟩ = some new) : s.counterpart source t = new := by
  rw [counterpart, if_neg h, hget]
  rfl

theorem follows_resolve (s : Substitution) (source : Nat) :
    Follows (s.resolve source) (s.counterpart source) := by
  intro t u h
  rcases resolve_eq_ok h with ⟨hshared, rfl⟩ | ⟨hshared, hget⟩
  · rw [counterpart, if_pos hshared]
  · exact (counterpart_of_get? hshared hget).symm

/-- Shared are the null token and those of user strings. -/
theorem table_of_isShared {t : Token} (h : isShared t) : t.table = 0 ∨ t.table = Table.userString := by
  unfold isShared at h
  rcases Bool.or_eq_true_iff.1 h with hnull | hstring
  · have hvalue : t.value = 0 := by simpa [Token.isNull] using hnull
    refine .inl ?_
    rw [Token.table, hvalue]
    rfl
  · exact .inr (by simpa using hstring)

/-- A token of a table of definitions is no shared one. -/
theorem not_isShared {t : Token} (h : t.table ∈ Table.definitions) : ¬ isShared t := by
  intro hshared
  rcases table_of_isShared hshared with htable | htable
  all_goals
    rw [htable] at h
    exact absurd h (by decide)

end Substitution

end ModuleLinker
