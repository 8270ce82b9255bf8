import Mathlib.Data.List.Pairwise
import ModuleLinker.Proofs.Relocation.Output
import ModuleLinker.Proofs.Relocation.Landing

namespace ModuleLinker

/-! # Counterparts of definitions

Every type that an input declares is held by one type of the output, the one that it starts or becomes
part of, and its token stands for the token of that type. All that is asked of the inputs is that
tokens tell definitions apart.
-/

namespace Shape

variable {l : Linkage} {plan : Plan}

/-! ## Numbers for what is filed -/

/-- What a substitution answers once all definitions have got their numbers: those of shapes have one,
redirected tokens have that of the token they are redirected to, and nothing else has any. -/
structure Settled (set : ModuleSet) (shapes : List Shape) (rs : List Redirect) (sub : Substitution) :
    Prop where
  kept : ∀ k ∈ keysOf shapes, ∃ new, sub.get? k = some new
  dropped : ∀ r ∈ rs, sub.get? r.dropped = sub.get? r.kept
  declared : ∀ k new, sub.get? k = some new → k ∈ set.keys

namespace Landed

variable {placed : PlacedShapes} {rs : List Redirect}

/-- Everything that an input defines is filed or redirected. -/
theorem count_eq (h : Landed l plan l.set.declarations placed rs) (k : SourceToken) :
    (filedAll (placed.map Prod.snd)).count k + (rs.map Redirect.dropped).count k =
      l.set.keys.count k := by
  have hcount := h.moved.count k
  rwa [List.count_nil, Nat.zero_add] at hcount

theorem drawn_within (h : Landed l plan l.set.declarations placed rs) :
    ∀ s ∈ withinAll (placed.map Prod.snd), Drawn l.set s := by
  intro s hs
  obtain ⟨p, hp, hmem⟩ := mem_withinAll_snd.1 hs
  exact h.drawn p hp s hmem

theorem keysOf_subset (h : Landed l plan l.set.declarations placed rs) :
    keysOf (placed.map Prod.snd) ⊆ filedAll (placed.map Prod.snd) := by
  intro k hk
  obtain ⟨s, hs, hk⟩ := List.mem_flatMap.1 hk
  refine List.mem_flatMap.2 ⟨s, hs, ?_⟩
  rcases List.mem_cons.1 hk with rfl | hpart
  · exact List.mem_cons_self
  · obtain ⟨x, hx, rfl⟩ := List.mem_map.1 hpart
    exact List.mem_cons_of_mem _ ((h.drawn_within s hs).parts x hx)

theorem mem_keys_of_filed (h : Landed l plan l.set.declarations placed rs) {k : SourceToken}
    (hk : k ∈ filedAll (placed.map Prod.snd)) : k ∈ l.set.keys := by
  have hcount := h.count_eq k
  have hpos := List.count_pos_iff.2 hk
  exact List.count_pos_iff.1 (by omega)

theorem mem_keys_of_dropped (h : Landed l plan l.set.declarations placed rs) {k : SourceToken}
    (hk : k ∈ rs.map Redirect.dropped) : k ∈ l.set.keys := by
  have hcount := h.count_eq k
  have hpos := List.count_pos_iff.2 hk
  exact List.count_pos_iff.1 (by omega)

/-- Nothing is filed twice, redirected twice, or filed and redirected. -/
theorem count_le_one (h : Landed l plan l.set.declarations placed rs) (hset : l.set.Identified)
    (k : SourceToken) :
    (filedAll (placed.map Prod.snd)).count k + (rs.map Redirect.dropped).count k ≤ 1 := by
  rw [h.count_eq k]
  exact List.nodup_iff_count_le_one.1 hset.nodup_keys k

/-- What is filed is not redirected. -/
theorem not_dropped (h : Landed l plan l.set.declarations placed rs) (hset : l.set.Identified)
    {k : SourceToken} (hk : k ∈ filedAll (placed.map Prod.snd)) : k ∉ rs.map Redirect.dropped := by
  intro hdropped
  have hone := h.count_le_one hset k
  have hfiled := List.count_pos_iff.2 hk
  have hpos := List.count_pos_iff.2 hdropped
  omega

/-- A token that is filed goes nowhere else. -/
theorem eq_of_goesTo (h : Landed l plan l.set.declarations placed rs) (hset : l.set.Identified)
    {k kept : SourceToken} (hk : k ∈ filedAll (placed.map Prod.snd)) (hgoes : GoesTo rs k kept) : k = kept := by
  rcases hgoes with heq | hredirected
  · exact heq
  · exact absurd (List.mem_map_of_mem hredirected) (h.not_dropped hset hk)

theorem nodup_dropped (h : Landed l plan l.set.declarations placed rs) (hset : l.set.Identified) :
    (rs.map Redirect.dropped).Nodup :=
  List.nodup_iff_count_le_one.2 fun k => Nat.le_of_add_left_le (h.count_le_one hset k)

theorem nodup_filed (h : Landed l plan l.set.declarations placed rs) (hset : l.set.Identified) :
    (filedAll (placed.map Prod.snd)).Nodup :=
  List.nodup_iff_count_le_one.2 fun k => Nat.le_of_add_right_le (h.count_le_one hset k)

/-- A token is filed in one shape only. -/
theorem eq_of_filed (h : Landed l plan l.set.declarations placed rs) (hset : l.set.Identified) {s s' : Shape}
    (hs : s ∈ withinAll (placed.map Prod.snd)) (hs' : s' ∈ withinAll (placed.map Prod.snd)) {k : SourceToken}
    (hk : k ∈ s.filed) (hk' : k ∈ s'.filed) : s = s' := by
  obtain ⟨-, hdisjoint⟩ := List.nodup_flatMap.1 (h.nodup_filed hset)
  have : Std.Symm (Function.onFun List.Disjoint filed) := ⟨fun _ _ hapart _ h h' => hapart h' h⟩
  by_contra hne
  exact hdisjoint.forall hs hs' hne hk hk'

theorem settled (h : Landed l plan l.set.declarations placed rs) (hset : l.set.Identified)
    {sub : Substitution} {a : Allocator}
    (hsub : substitution (placed.map Prod.snd) rs = .ok (sub, a)) :
    Settled l.set (placed.map Prod.snd) rs sub := by
  obtain ⟨sub₀, hrun, hredirects⟩ := substitution_eq_ok hsub
  obtain ⟨hother, hslots⟩ := numberAll_ok hrun
  rw [map_slots] at hother hslots
  -- what tokens are redirected to is filed, and so it is not redirected itself
  obtain ⟨hkeep, hdropped⟩ := applyRedirects_ok
    (fun r hr => h.not_dropped hset (h.moved.kept r hr))
    (fun r hr => hset.unshared (h.mem_keys_of_filed (h.moved.kept r hr)))
    (h.nodup_dropped hset) hredirects
  constructor
  · intro k hk
    obtain ⟨new, hnew, -⟩ := hslots k hk
    exact ⟨new, (hkeep k (h.not_dropped hset (h.keysOf_subset hk))).trans hnew⟩
  · intro r hr
    rw [hdropped r hr, hkeep _ (h.not_dropped hset (h.moved.kept r hr))]
  · intro k new hnew
    by_cases hdrop : k ∈ rs.map Redirect.dropped
    · exact h.mem_keys_of_dropped hdrop
    · rw [hkeep k hdrop] at hnew
      by_cases hkey : k ∈ keysOf (placed.map Prod.snd)
      · exact h.mem_keys_of_filed (h.keysOf_subset hkey)
      · rw [hother k hkey, Substitution.get?_empty] at hnew
        cases hnew

end Landed

theorem Settled.get?_eq {set : ModuleSet} {shapes : List Shape} {rs : List Redirect}
    {sub : Substitution} (h : Settled set shapes rs sub) {t kept : SourceToken}
    (hgoes : GoesTo rs t kept) : sub.get? t = sub.get? kept := by
  rcases hgoes with rfl | hmem
  · rfl
  · exact h.dropped _ hmem

end Shape

/-! ## The types of the output that hold those of the inputs -/

/-- A type of the output holds a type of an input: the declarations that go into a top-level type are
held by it, and what is nested in a held type is held by the nested type of its name. -/
inductive HeldBy (set : ModuleSet) (plan : Plan) (types : List TypeDef) : Sourced TypeDef → TypeDef → Prop
  | declared {d first : Declaration} {v : TypeDef} (hd : d ∈ set.declarations)
    (hzip : (first, v) ∈ (set.emitted plan).zip types) (hgoes : plan.GoesInto d first.origin) :
    HeldBy set plan types ⟨d.origin.module, d.type⟩ v
  | nested {t : Sourced TypeDef} {v u w : TypeDef} (h : HeldBy set plan types t v)
      (hu : u ∈ t.value.nested) (hw : w ∈ v.nested) (hname : w.name = u.name) :
    HeldBy set plan types ⟨t.source, u⟩ w

namespace Relocation

open Shape

variable {l : Linkage} {set : ModuleSet} {plan : Plan} {policy : Policy} {sub : Substitution}
  {types : List TypeDef} {rs : List Redirect} {source : Nat}

/-- A shape has landed a type: its token and its members, and the output's type is written for it. -/
structure Lands (l : Linkage) (plan : Plan) (sub : Substitution) (types : List TypeDef)
    (rs : List Redirect) (t : Sourced TypeDef) (s : Shape) : Prop where
  held : HeldBy l.set plan types t (s.image l sub)
  token : GoesTo rs ⟨t.source, t.value.token⟩ s.key
  members : ReceivesMembers l rs t.source t.value s

theorem name_image (l : Linkage) (sub : Substitution) (s : Shape) : (s.image l sub).name = s.name := by
  cases s
  rfl

mutual

/-- With a type, all types nested in it have landed. -/
theorem exists_lands (t : TypeDef) {s : Shape} (h : Receives l rs source t s)
    (hheld : HeldBy l.set plan types ⟨source, t⟩ (s.image l sub)) :
    ∀ u ∈ t.within, ∃ s' ∈ s.within, Lands l plan sub types rs ⟨source, u⟩ s' := by
  rcases t with ⟨token, namespaceName, name, flags, base, interfaces, genericParams, fields, methods,
    properties, events, nested, attributes⟩
  obtain ⟨htoken, hmembers, hnested⟩ := receives_iff.1 h
  intro u hu
  rw [TypeDef.within, List.mem_cons] at hu
  rcases hu with rfl | hinner
  · exact ⟨s, s.self_mem_within, hheld, htoken, hmembers⟩
  · obtain ⟨s', hs', hlands⟩ := exists_lands_nested nested hheld (fun _ hw => hw) hnested u hinner
    rw [within_eq]
    exact ⟨s', List.mem_cons_of_mem _ hs', hlands⟩

theorem exists_lands_nested (ts : List TypeDef) {outer : TypeDef} {s : Shape}
    (hheld : HeldBy l.set plan types ⟨source, outer⟩ (s.image l sub)) (hts : ts ⊆ outer.nested)
    (h : ReceivesAll l rs source ts s.nested) :
    ∀ u ∈ TypeDef.withinAll ts, ∃ s' ∈ s.nested.flatMap within,
      Lands l plan sub types rs ⟨source, u⟩ s' := by
  cases ts with
  | nil => exact nofun
  | cons t ts =>
    obtain ⟨⟨n, hn, hname, ht⟩, hrest⟩ := h
    obtain ⟨hmem, hsubset⟩ := List.cons_subset.1 hts
    intro u hu
    rw [TypeDef.withinAll, List.mem_append] at hu
    rcases hu with hfirst | hlater
    · have hinner : HeldBy l.set plan types ⟨source, t⟩ (n.image l sub) := by
        refine .nested hheld hmem ?_ ((name_image l sub n).trans hname)
        rw [nested_image]
        exact List.mem_map_of_mem hn
      obtain ⟨s', hs', hlands⟩ := exists_lands t ht hinner u hfirst
      exact ⟨s', List.mem_flatMap.2 ⟨n, hn, hs'⟩, hlands⟩
    · exact exists_lands_nested ts hheld hsubset hrest u hlater

end

/-- What is written for a shape is made of what the inputs declare. -/
theorem exists_madeOf {s : Shape} (h : Drawn l.set s) :
    ∃ origin, MadeOf l sub.counterpart (s.image l sub) origin := by
  have hmembers := s.members_image l sub
  rcases s with ⟨source, origin, name, flags, fields, methods, properties, events, interfaces,
    attributes, nested, members, interfaceNames⟩
  exact ⟨(⟨source, origin⟩, _), h.origin, rfl, rfl, rfl, h.declared, hmembers⟩

/-- Every shape is written for a type with a place of its own. -/
theorem exists_mem_zip {placed : PlacedShapes} (h : Landed l plan l.set.declarations placed rs)
    (htypes : types = imageAll l sub (placed.map Prod.snd)) {q : Origin × Shape}
    (hq : q ∈ placed) : ∃ first, (first, q.2.image l sub) ∈ (l.set.emitted plan).zip types ∧
      q.1 = first.origin ∧ StandsFor plan first q.2 := by
  obtain ⟨hlength, hzip⟩ := List.forall₂_iff_zip.1 h.heads
  have hmem : q ∈ ((l.set.emitted plan).zip placed).map Prod.snd :=
    (List.map_snd_zip hlength.ge).symm ▸ hq
  obtain ⟨⟨first, q'⟩, hpair, rfl⟩ := List.mem_map.1 hmem
  refine ⟨first, ?_, hzip hpair⟩
  rw [htypes, imageAll_eq, List.map_map, List.zip_map_right]
  exact List.mem_map.2 ⟨(first, q'), hpair, rfl⟩

/-- Every type that an input declares has landed in a shape. -/
theorem exists_lands_of_declares {placed : PlacedShapes}
    (h : Landed l plan l.set.declarations placed rs)
    (htypes : types = imageAll l sub (placed.map Prod.snd)) {t : Sourced TypeDef}
    (ht : l.set.Declares t) :
    ∃ s ∈ withinAll (placed.map Prod.snd), Lands l plan sub types rs t s := by
  rcases t with ⟨source, t⟩
  obtain ⟨d, hd, rfl, hwithin⟩ := ModuleSet.exists_declaration ht
  obtain ⟨q, hq, hgoes, hholds⟩ := h.held d hd
  obtain ⟨first, hzip, horigin, -⟩ := exists_mem_zip h htypes hq
  rw [horigin] at hgoes
  obtain ⟨s, hs, hlands⟩ := exists_lands d.type hholds (.declared hd hzip hgoes) t hwithin
  exact ⟨s, mem_withinAll_snd.2 ⟨q, hq, hs⟩, hlands⟩

/-- The token of a type that has landed stands for that of the written type, once the counterparts of
definitions are in place. -/
theorem Lands.get?_eq (hset : l.set.Identified) {shapes : List Shape} {start : Substitution}
    (hsettled : Settled l.set shapes rs start)
    (hkept : ∀ k new, start.get? k = some new → sub.get? k = some new) {t : Sourced TypeDef} {s : Shape}
    (hs : s ∈ withinAll shapes) (h : Lands l plan sub types rs t s) :
    sub.get? ⟨t.source, t.value.token⟩ = some (s.image l sub).token := by
  have hkey : s.key ∈ keysOf shapes := List.mem_flatMap.2 ⟨s, hs, List.mem_cons_self⟩
  obtain ⟨new, hnew⟩ := hsettled.kept s.key hkey
  have htoken := (hsettled.get?_eq h.token).trans hnew
  have hshared := hset.unshared (hsettled.declared _ _ hnew)
  rw [hkept _ _ htoken, token_image]
  exact congrArg some (Substitution.counterpart_of_get? hshared (hkept _ _ hnew)).symm

end Relocation

end ModuleLinker
