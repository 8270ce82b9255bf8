import Mathlib.Data.List.Nodup
import ModuleLinker.Proofs.Relocation.Writing
import ModuleLinker.Proofs.Token

namespace ModuleLinker

/-! # The tokens of the output

Every type and member of a shape has a counterpart of its kind, and a redirected token has that of
the token that it is redirected to.
-/

namespace Shape

/-! ## Handing out tokens -/

/-- The tokens that are numbered for a shape, with the tables that theirs come from; those of nested
shapes are left out. -/
def slots (s : Shape) : List (UInt8 × SourceToken) :=
  (Table.typeDef, s.key) :: s.parts.map fun x => (x.value.table, partKey x)

/-- Numbers tokens one after another. -/
def numberAll (slots : List (UInt8 × SourceToken)) : Numbering Unit :=
  forM slots fun (table, t) => number table t

mutual

theorem allocate_eq (s : Shape) : allocate s = numberAll (s.within.flatMap slots) := by
  rcases s with ⟨source, origin, name, flags, fields, methods, properties, events, interfaces,
    attributes, nested, members, interfaceNames⟩
  rw [allocate, allocateAll_eq nested, within, List.flatMap_cons]
  simp only [numberAll, slots, parts, key, List.map_append, List.map_map, List.forM_append,
    List.forM_cons, List.cons_append, List.forM_map, List.append_assoc]
  rfl

theorem allocateAll_eq (shapes : List Shape) :
    allocateAll shapes = numberAll ((withinAll shapes).flatMap slots) := by
  cases shapes with
  | nil => rfl
  | cons s shapes =>
    rw [allocateAll, allocate_eq s, allocateAll_eq shapes, withinAll, List.flatMap_append]
    simp only [numberAll, List.forM_append]

end

theorem number_ok {table : UInt8} {t : SourceToken} {sub sub' : Substitution} {a a' : Allocator}
    (h : (number table t).run.run (sub, a) = (.ok ⟨⟩, (sub', a'))) :
    ∃ new, new.table = table ∧ sub' = sub.insert t new := by
  rcases run_bind_eq_ok h with ⟨⟨sub₀, a₀⟩, s, hget, hset⟩
  cases hget
  dsimp only at hset
  rcases hnext : a.next table with ⟨fault | new, next⟩
  · rw [hnext] at hset
    exact nomatch hset
  · rw [hnext] at hset
    cases hset
    exact ⟨new, Allocator.table_of_next hnext, rfl⟩

/-- Each of the slots gets a counterpart of its table, and nothing else changes. -/
theorem numberAll_ok {slots : List (UInt8 × SourceToken)} {sub sub' : Substitution} {a a' : Allocator}
    (h : (numberAll slots).run.run (sub, a) = (.ok ⟨⟩, (sub', a'))) :
    (∀ t, t ∉ slots.map Prod.snd → sub'.get? t = sub.get? t) ∧
      ∀ t ∈ slots.map Prod.snd, ∃ new, sub'.get? t = some new ∧ (new.table, t) ∈ slots := by
  induction slots generalizing sub a with
  | nil =>
    cases h
    exact ⟨fun _ _ => rfl, nofun⟩
  | cons slot slots ih =>
    rcases slot with ⟨table, u⟩
    rcases run_bind_eq_ok h with ⟨_, ⟨sub₁, a₁⟩, hfirst, hrest⟩
    rcases number_ok hfirst with ⟨new, rfl, rfl⟩
    rcases ih hrest with ⟨hother, hslots⟩
    constructor
    · intro t ht
      rw [List.map_cons, List.mem_cons, not_or] at ht
      rw [hother t ht.2, Substitution.get?_insert_of_ne _ ht.1]
    · intro t ht
      -- a token that is numbered again has its last number
      by_cases hlater : t ∈ slots.map Prod.snd
      · rcases hslots t hlater with ⟨v, hv, hmem⟩
        exact ⟨v, hv, List.mem_cons_of_mem _ hmem⟩
      · obtain rfl : t = u := by simpa [hlater] using ht
        exact ⟨new, by rw [hother t hlater, Substitution.get?_insert_self], List.mem_cons_self⟩

/-! ## Redirected tokens -/

/-- The tokens of shapes, of their members and of what is nested in them. -/
def keysOf (shapes : List Shape) : List SourceToken := (withinAll shapes).flatMap keys

/-- What holds of shapes and redirected tokens once all types have been taken in: no token is there
twice, and whatever was dropped made way for something of its kind that was kept. -/
structure Accounted (shapes : List Shape) (redirects : List Redirect) : Prop where
  types : ∀ s ∈ withinAll shapes, s.origin.token.table = Table.typeDef
  parts : ∀ s ∈ withinAll shapes, ∀ x ∈ s.parts, x.value.token.table = x.value.table
  nodup : (keysOf shapes ++ redirects.map Redirect.dropped).Nodup
  kept : ∀ r ∈ redirects, r.kept ∈ keysOf shapes ∧ r.dropped.token.table = r.kept.token.table

/-- What is numbered for shapes are their tokens, each in its own table. -/
theorem mem_slots {shapes : List Shape} {redirects : List Redirect} (h : Accounted shapes redirects)
    {table : UInt8} {t : SourceToken} (ht : (table, t) ∈ (withinAll shapes).flatMap slots) :
    table = t.token.table := by
  rcases List.mem_flatMap.1 ht with ⟨s, hs, ht⟩
  rcases List.mem_cons.1 ht with heq | hmem
  · cases heq
    exact (h.types s hs).symm
  · rcases List.mem_map.1 hmem with ⟨x, hx, heq⟩
    cases heq
    exact (h.parts s hs x hx).symm

theorem map_slots (shapes : List Shape) :
    ((withinAll shapes).flatMap slots).map Prod.snd = keysOf shapes := by
  simp only [keysOf, List.map_flatMap]
  refine List.flatMap_congr fun s _ => ?_
  simp only [slots, keys, List.map_cons, List.map_map]
  rfl

/-- Redirecting changes nothing but the dropped tokens, which get the counterparts of the kept ones
as long as none of these is dropped. -/
theorem applyRedirects_ok {redirects : List Redirect} {sub sub' : Substitution}
    (hkept : ∀ r ∈ redirects, r.kept ∉ redirects.map Redirect.dropped)
    (hown : ∀ r ∈ redirects, ¬ Substitution.isShared r.kept.token)
    (hnodup : (redirects.map Redirect.dropped).Nodup)
    (h : redirects.foldlM applyRedirect sub = .ok sub') :
    (∀ t, t ∉ redirects.map Redirect.dropped → sub'.get? t = sub.get? t) ∧
      ∀ r ∈ redirects, sub'.get? r.dropped = sub.get? r.kept := by
  induction redirects generalizing sub with
  | nil =>
    cases h
    exact ⟨fun _ _ => rfl, nofun⟩
  | cons r redirects ih =>
    rcases bind_eq_ok.1 h with ⟨sub₁, hfirst, hrest⟩
    rcases bind_eq_ok.1 hfirst with ⟨new, hnew, hset⟩
    cases hset
    rw [List.map_cons, List.nodup_cons] at hnodup
    -- the kept token is that of a definition, so it is not resolved to itself
    have hget : sub.get? r.kept = some new := by
      rcases Substitution.resolve_eq_ok hnew with ⟨hshared, _⟩ | ⟨_, hget⟩
      · exact absurd hshared (hown r List.mem_cons_self)
      · exact hget
    -- what later ones are redirected to is not touched by this one
    have hlater : ∀ q ∈ redirects, q.kept ∉ (r :: redirects).map Redirect.dropped :=
      fun q hq => hkept q (List.mem_cons_of_mem _ hq)
    obtain ⟨hother, hdropped⟩ := ih
      (fun q hq hmem => hlater q hq (List.mem_cons_of_mem _ hmem))
      (fun q hq => hown q (List.mem_cons_of_mem _ hq)) hnodup.2 hrest
    refine ⟨?_, List.forall_mem_cons.2 ⟨?_, ?_⟩⟩
    · intro t ht
      rw [List.map_cons, List.mem_cons, not_or] at ht
      rw [hother t ht.2, Substitution.get?_insert_of_ne _ ht.1]
    · rw [hother _ hnodup.1, Substitution.get?_insert_self, hget]
    · intro q hq
      have hne : q.kept ≠ r.dropped := fun heq => hlater q hq (heq ▸ List.mem_cons_self)
      rw [hdropped q hq, Substitution.get?_insert_of_ne _ hne]

/-! ## The substitution of a merge -/

/-- What the substitution of shapes and redirected tokens answers. -/
structure Numbered (shapes : List Shape) (redirects : List Redirect) (sub : Substitution) : Prop where
  kept : ∀ t ∈ keysOf shapes, ∃ new, sub.get? t = some new ∧ new.table = t.token.table
  dropped : ∀ r ∈ redirects, sub.get? r.dropped = sub.get? r.kept
  other : ∀ t, t ∉ keysOf shapes → t ∉ redirects.map Redirect.dropped → sub.get? t = none

/-- The tokens of shapes and of their members are those of definitions. -/
theorem table_mem_definitions {shapes : List Shape} {redirects : List Redirect}
    (h : Accounted shapes redirects) {t : SourceToken} (ht : t ∈ keysOf shapes) :
    t.token.table ∈ Table.definitions := by
  rcases List.mem_flatMap.1 ht with ⟨s, hs, ht⟩
  rcases List.mem_cons.1 ht with rfl | hmem
  · rw [key, h.types s hs]
    exact List.mem_cons_self
  · rcases List.mem_map.1 hmem with ⟨x, hx, rfl⟩
    rw [partKey, h.parts s hs x hx]
    exact x.value.table_mem_definitions

/-- Where nothing is both kept and dropped, redirecting gives each dropped token the counterpart of the kept
one and changes nothing else. -/
theorem Accounted.redirects_ok {shapes : List Shape} {redirects : List Redirect} {sub₀ sub : Substitution}
    (h : Accounted shapes redirects) (hredirects : redirects.foldlM applyRedirect sub₀ = .ok sub) :
    (∀ t, t ∉ redirects.map Redirect.dropped → sub.get? t = sub₀.get? t) ∧
      ∀ r ∈ redirects, sub.get? r.dropped = sub₀.get? r.kept := by
  have hdisjoint := List.disjoint_of_nodup_append h.nodup
  exact applyRedirects_ok (fun r hr => hdisjoint (h.kept r hr).1)
    (fun r hr => Substitution.not_isShared (table_mem_definitions h (h.kept r hr).1))
    h.nodup.of_append_right hredirects

/-- A substitution numbers the tokens of shapes, and then redirects those that were dropped. -/
theorem substitution_eq_ok {shapes : List Shape} {redirects : List Redirect} {sub : Substitution}
    {a : Allocator} (h : substitution shapes redirects = .ok (sub, a)) : ∃ sub₀,
      (numberAll ((withinAll shapes).flatMap slots)).run.run (.empty, .empty) = (.ok ⟨⟩, (sub₀, a)) ∧
        redirects.foldlM applyRedirect sub₀ = .ok sub := by
  rw [substitution, allocateAll_eq] at h
  rcases hrun : (numberAll ((withinAll shapes).flatMap slots)).run.run (.empty, .empty) with
    ⟨result, sub₀, a₀⟩
  rw [hrun] at h
  have hbind : (result >>= fun _ => do
      return (← redirects.foldlM applyRedirect sub₀, a₀)) = .ok (sub, a) := h
  rcases bind_eq_ok.1 hbind with ⟨_, rfl, hlast⟩
  rcases bind_eq_ok.1 hlast with ⟨sub₁, hredirects, hpure⟩
  cases hpure
  exact ⟨sub₀, rfl, hredirects⟩

/-- Numbers go to what is kept and redirects to what is not, and nothing is both. -/
theorem Accounted.get?_kept {shapes : List Shape} {redirects : List Redirect} {sub₀ sub : Substitution}
    (h : Accounted shapes redirects) (hredirects : redirects.foldlM applyRedirect sub₀ = .ok sub)
    {t : SourceToken} (ht : t ∈ keysOf shapes) : sub.get? t = sub₀.get? t :=
  (h.redirects_ok hredirects).1 t (List.disjoint_of_nodup_append h.nodup ht)

theorem substitution_ok {shapes : List Shape} {redirects : List Redirect} {sub : Substitution}
    {a : Allocator} (haccounted : Accounted shapes redirects)
    (h : substitution shapes redirects = .ok (sub, a)) : Numbered shapes redirects sub := by
  obtain ⟨sub₀, hrun, hredirects⟩ := substitution_eq_ok h
  rcases numberAll_ok hrun with ⟨hother, hslots⟩
  rw [map_slots] at hother hslots
  obtain ⟨hkeep, hdropped⟩ := haccounted.redirects_ok hredirects
  constructor
  · intro t ht
    rcases hslots t ht with ⟨new, hnew, hslot⟩
    exact ⟨new, (haccounted.get?_kept hredirects ht).trans hnew, mem_slots haccounted hslot⟩
  · intro r hr
    rw [hdropped r hr, haccounted.get?_kept hredirects (haccounted.kept r hr).1]
  · intro t hkeys hredirect
    rw [hkeep t hredirect, hother t hkeys, Substitution.get?_empty]

/-- Whatever has a counterpart shares it with something of its kind that was kept. -/
theorem Numbered.exists_key {shapes : List Shape} {redirects : List Redirect} {sub : Substitution}
    (h : Numbered shapes redirects sub) (haccounted : Accounted shapes redirects) {k : SourceToken}
    {t : Token} (hk : sub.get? k = some t) :
    ∃ k' ∈ keysOf shapes, sub.get? k' = some t ∧ k.token.table = k'.token.table := by
  by_cases hkey : k ∈ keysOf shapes
  · exact ⟨k, hkey, hk, rfl⟩
  · by_cases hdropped : k ∈ redirects.map Redirect.dropped
    · rcases List.mem_map.1 hdropped with ⟨r, hr, rfl⟩
      rcases haccounted.kept r hr with ⟨hkept, htable⟩
      exact ⟨r.kept, hkept, (h.dropped r hr).symm.trans hk, htable⟩
    · exact nomatch (h.other k hkey hdropped).symm.trans hk

/-- A counterpart is of the kind of the token that it stands for. -/
theorem Numbered.table_eq {shapes : List Shape} {redirects : List Redirect} {sub : Substitution}
    (h : Numbered shapes redirects sub) (haccounted : Accounted shapes redirects) {k : SourceToken}
    {t : Token} (hk : sub.get? k = some t) : t.table = k.token.table := by
  rcases h.exists_key haccounted hk with ⟨k', hkey, hk', htable⟩
  rcases h.kept k' hkey with ⟨new, hnew, hkind⟩
  rcases Option.some.inj (hnew.symm.trans hk') with rfl
  exact hkind.trans htable.symm

end Shape

end ModuleLinker
