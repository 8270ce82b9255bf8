import ModuleLinker.Proofs.Relocation.Numbering
import ModuleLinker.Proofs.Relocation.Shaping

namespace ModuleLinker

/-! # What becomes of every definition

When types are taken into shapes, each type and each member of theirs is either kept in a shape or
redirected to something of its kind that is kept, and nothing is both.
-/

namespace Shape

/-! ## Keeping account -/

/-- Between two states of shapes whose tokens are `before` and `after`, the tokens `added` came in:
each of them was kept or redirected, and what was there before is there still. -/
structure Grown (before after added : List SourceToken) (new : List Redirect) : Prop where
  count : ∀ k, after.count k + (new.map Redirect.dropped).count k = before.count k + added.count k
  mono : ∀ k, before.count k ≤ after.count k
  kept : ∀ r ∈ new, r.kept ∈ after ∧ r.dropped.token.table = r.kept.token.table

namespace Grown

variable {a b c x y : List SourceToken} {new more : List Redirect}

theorem refl (a : List SourceToken) : Grown a a [] [] :=
  ⟨fun _ => rfl, fun _ => le_rfl, nofun⟩

theorem trans (h : Grown a b x new) (h' : Grown b c y more) : Grown a c (x ++ y) (new ++ more) := by
  constructor
  · intro k
    have hk := h.count k
    have hk' := h'.count k
    rw [List.map_append, List.count_append, List.count_append]
    omega
  · intro k
    exact (h.mono k).trans (h'.mono k)
  · intro r hr
    rcases List.mem_append.1 hr with hnew | hmore
    · obtain ⟨hkept, htable⟩ := h.kept r hnew
      have hpos := List.count_pos_iff.2 hkept
      exact ⟨List.count_pos_iff.1 (hpos.trans_le (h'.mono _)), htable⟩
    · exact h'.kept r hmore

/-- Tokens beside those that are gone through stay as they are. -/
theorem beside (h : Grown a b x new) (c : List SourceToken) : Grown (c ++ a) (c ++ b) x new := by
  constructor
  · intro k
    have hk := h.count k
    rw [List.count_append, List.count_append]
    omega
  · intro k
    have hk := h.mono k
    rw [List.count_append, List.count_append]
    omega
  · intro r hr
    exact ⟨List.mem_append_right c (h.kept r hr).1, (h.kept r hr).2⟩

/-- The order of tokens does not matter. -/
theorem perm {a' b' x' : List SourceToken} (h : Grown a b x new) (ha : a.Perm a') (hb : b.Perm b')
    (hx : x.Perm x') : Grown a' b' x' new := by
  constructor
  · intro k
    rw [← ha.count_eq, ← hb.count_eq, ← hx.count_eq, h.count k]
  · intro k
    rw [← ha.count_eq, ← hb.count_eq]
    exact h.mono k
  · intro r hr
    exact ⟨hb.mem_iff.1 (h.kept r hr).1, (h.kept r hr).2⟩

/-- A token is kept. -/
theorem keep (a : List SourceToken) (t : SourceToken) : Grown a (a ++ [t]) [t] [] := by
  constructor
  · intro k
    rw [List.map_nil, List.count_nil, Nat.add_zero, List.count_append]
  · intro k
    rw [List.count_append]
    omega
  · exact nofun

/-- A token is redirected to one that is kept. -/
theorem drop {a : List SourceToken} (t : SourceToken) {kept : SourceToken} (hkept : kept ∈ a)
    (htable : t.token.table = kept.token.table) : Grown a a [t] [⟨t, kept⟩] := by
  constructor
  · intro k
    rfl
  · intro k
    exact le_rfl
  · intro r hr
    rcases List.mem_singleton.1 hr with rfl
    exact ⟨hkept, htable⟩

end Grown

/-- What holds of a shape at all times: the type that it started from and its members are declared by
inputs, and the members are filed under their keys. -/
structure Sound (l : Linkage) (s : Shape) : Prop where
  origin : l.set.Declares ⟨s.source, s.origin⟩
  parts : ∀ x ∈ s.parts, l.set.DeclaresMember x
  members : ∀ e ∈ s.members, ∃ x ∈ s.parts, partKey x = e.2 ∧ x.value.key (l.names x.source) = e.1

/-! ## Taking in the parts of a type -/

section

open Shaping

variable {l : Linkage} {source : Nat} {t : TypeDef}

theorem keys_keep (s : Shape) (x : Sourced Member) :
    (s.keep l x).keys.Perm (s.keys ++ [partKey x]) := by
  have hparts := (parts_keep (l := l) s x).map partKey
  have hhead := sameRest_keep (l := l) s x
  rw [List.map_append] at hparts
  rw [keys, key, hhead.source, hhead.origin]
  exact hparts.cons _

theorem sound_keep {s : Shape} (hs : Sound l s) {x : Sourced Member}
    (hx : l.set.DeclaresMember x) : Sound l (s.keep l x) := by
  have hparts := parts_keep (l := l) s x
  have hhead := sameRest_keep (l := l) s x
  constructor
  · rw [hhead.source, hhead.origin]
    exact hs.origin
  · intro y hy
    rcases List.mem_append.1 (hparts.mem_iff.1 hy) with hold | hnew
    · exact hs.parts y hold
    · exact List.mem_singleton.1 hnew ▸ hx
  · intro e he
    rcases List.mem_append.1 he with hold | hnew
    · obtain ⟨y, hy, hkey⟩ := hs.members e hold
      exact ⟨y, hparts.mem_iff.2 (List.mem_append_left _ hy), hkey⟩
    · obtain rfl := List.mem_singleton.1 hnew
      exact ⟨x, hparts.mem_iff.2 (List.mem_append_right _ List.mem_cons_self), rfl, rfl⟩

/-- A member is kept, or redirected to the member that the shape has under its key. -/
theorem takeMember_yields (hset : l.set.WellNumbered) (ht : l.set.Declares ⟨source, t⟩) {x : Member}
    (hx : x ∈ t.members) {s : Shape} (hs : Sound l s) :
    Yields (takeMember source t s (x.key (l.names source), x.token)) fun s' new =>
      SameHead s s' ∧ s'.nested = s.nested ∧ Sound l s' ∧
        Grown s.keys s'.keys [⟨source, x.token⟩] new := by
  have hdeclared : l.set.DeclaresMember ⟨source, x⟩ := ⟨t, ht, hx⟩
  rw [takeMember_eq hset ht hx]
  rcases hlookup : s.members.lookup (x.key (l.names source)) with _ | kept
  · have hgrown := (Grown.keep s.keys ⟨source, x.token⟩).perm (.refl _)
      (keys_keep (l := l) s ⟨source, x⟩).symm (.refl _)
    exact Yields.pure ⟨(sameRest_keep s ⟨source, x⟩).toSameHead, (sameRest_keep s ⟨source, x⟩).nested,
      sound_keep hs hdeclared, hgrown⟩
  · -- the member that is filed under the key stays, and it is of the same kind
    refine (Yields.redirect _ _).bind ?_
    rintro _ _ rfl
    obtain ⟨l₁, l₂, hmembers, -⟩ := List.lookup_eq_some_iff.1 hlookup
    obtain ⟨y, hy, rfl, hkey⟩ := hs.members (x.key (l.names source), kept) (by simp [hmembers])
    have hsame := Member.table_eq_of_key_eq hkey
    refine Yields.pure ⟨⟨rfl, rfl, rfl, rfl⟩, rfl, hs, Grown.drop _ ?_ ?_⟩
    · exact List.mem_cons_of_mem _ (List.mem_map_of_mem hy)
    · rw [hset.table_eq hdeclared, partKey, hset.table_eq (hs.parts y hy), ← hsame]

theorem takeMembers_yields (hset : l.set.WellNumbered) (ht : l.set.Declares ⟨source, t⟩) {s : Shape}
    (hs : Sound l s) :
    Yields ((t.memberKeys (l.names source)).foldlM (takeMember source t) s) fun s' new =>
      SameHead s s' ∧ s'.nested = s.nested ∧ Sound l s' ∧
        Grown s.keys s'.keys (t.members.map fun x => ⟨source, x.token⟩) new := by
  -- the tokens of the members in the order in which the members are gone through
  have hkeys : t.members.map (fun x => SourceToken.mk source x.token) =
      (t.memberKeys (l.names source)).map fun e => ⟨source, e.2⟩ := by
    rw [TypeDef.memberKeys_eq, List.map_map]
    rfl
  rw [hkeys]
  refine Yields.foldlM (motive := fun done s' new => SameHead s s' ∧ s'.nested = s.nested ∧
    Sound l s' ∧ Grown s.keys s'.keys (done.map fun e : MemberKey × Token => ⟨source, e.2⟩) new)
    ?_ ?_
  · exact ⟨⟨rfl, rfl, rfl, rfl⟩, rfl, hs, .refl _⟩
  · rintro done e he b new ⟨hhead, hnested, hb, hgrown⟩
    rw [TypeDef.memberKeys_eq] at he
    obtain ⟨x, hx, rfl⟩ := List.mem_map.1 he
    refine (takeMember_yields hset ht hx hb).mono ?_
    rintro c more ⟨hhead', hnested', hc, hgrown'⟩
    refine ⟨hhead.trans hhead', hnested'.trans hnested, hc, ?_⟩
    rw [List.map_append]
    exact hgrown.trans hgrown'

/-- The parts of a type are its members as far as tokens go. -/
theorem takeParts_yields (hset : l.set.WellNumbered) (ht : l.set.Declares ⟨source, t⟩) {s : Shape}
    (hs : Sound l s) :
    Yields (takeParts l source t s) fun s' new =>
      SameHead s s' ∧ s'.nested = s.nested ∧ Sound l s' ∧
        Grown s.keys s'.keys (t.members.map fun x => ⟨source, x.token⟩) new := by
  unfold takeParts
  refine (takeMembers_yields hset ht hs).bind ?_
  rintro s₁ new ⟨hhead, hnested, hs₁, hgrown⟩
  rcases takeInterfaces_eq source (l.names source) t.interfaces s₁ with ⟨seen, heq⟩
  dsimp only
  rw [heq]
  refine (takeAttributes_yields l source t.attributes _).mono ?_
  rintro _ more ⟨⟨kept, rfl⟩, rfl⟩
  rw [List.append_nil]
  exact ⟨⟨hhead.source, hhead.origin, hhead.name, hhead.flags⟩, hnested,
    ⟨hs₁.origin, hs₁.parts, hs₁.members⟩, hgrown⟩

/-! ## Taking in a type with what is nested in it -/

/-- The tokens of a shape, of its members and of what is nested in it. -/
def keysWithin (s : Shape) : List SourceToken := s.within.flatMap keys

theorem keysOf_eq (shapes : List Shape) : keysOf shapes = shapes.flatMap keysWithin := by
  rw [keysOf, withinAll_eq, List.flatMap_assoc]
  rfl

theorem keysWithin_eq (s : Shape) : s.keysWithin = s.keys ++ keysOf s.nested := by
  rw [keysWithin, within_eq, List.flatMap_cons, keysOf, withinAll_eq]

theorem keysWithin_ofType (source : Nat) (t : TypeDef) :
    (ofType source t).keysWithin = [⟨source, t.token⟩] := rfl

/-- The token of a shape is one of those of the shapes that it is among. -/
theorem key_mem_keysOf {shapes : List Shape} {s : Shape} (h : s ∈ shapes) : s.key ∈ keysOf shapes := by
  rw [keysOf_eq]
  refine List.mem_flatMap.2 ⟨s, h, ?_⟩
  exact List.mem_flatMap.2 ⟨s, s.self_mem_within, List.mem_cons_self⟩

theorem keysOf_append_singleton (shapes : List Shape) (s : Shape) :
    keysOf (shapes ++ [s]) = keysOf shapes ++ s.keysWithin := by
  simp only [keysOf_eq, List.flatMap_append, List.flatMap_cons, List.flatMap_nil, List.append_nil]

/-- The tokens of shapes of which one is set apart. -/
theorem keysOf_middle (before after : List Shape) (s : Shape) :
    (keysOf (before ++ s :: after)).Perm (keysOf (before ++ after) ++ s.keysWithin) := by
  simp only [keysOf_eq, List.flatMap_append, List.flatMap_cons, List.append_assoc]
  exact List.perm_append_comm.append_left _

theorem keysOf_set {shapes : List Shape} {index : Nat} {s : Shape} (h : shapes[index]? = some s)
    (new : Shape) : ∃ others, (keysOf shapes).Perm (others ++ s.keysWithin) ∧
      (keysOf (shapes.set index new)).Perm (others ++ new.keysWithin) := by
  obtain ⟨hlt, hget⟩ := List.getElem?_eq_some_iff.1 h
  have hshapes : shapes.take index ++ s :: shapes.drop (index + 1) = shapes := by
    rw [← hget, List.getElem_cons_drop, List.take_append_drop]
  have hold := keysOf_middle (shapes.take index) (shapes.drop (index + 1)) s
  have hnew := keysOf_middle (shapes.take index) (shapes.drop (index + 1)) new
  rw [hshapes] at hold
  rw [List.set_eq_take_append_cons_drop, if_pos hlt]
  exact ⟨_, hold, hnew⟩

theorem sound_ofType (ht : l.set.Declares ⟨source, t⟩) :
    ∀ u ∈ (ofType source t).within, Sound l u := by
  intro u hu
  obtain rfl := List.mem_singleton.1 hu
  exact ⟨ht, nofun, nofun⟩

mutual

/-- What is in a type is kept or redirected. -/
theorem absorb_yields (hset : l.set.WellNumbered) (t : TypeDef)
    (ht : ∀ u ∈ t.within, l.set.Declares ⟨source, u⟩) {s : Shape}
    (hs : ∀ u ∈ s.within, Sound l u) :
    Yields (absorb l source s t) fun s' new =>
      SameHead s s' ∧ (∀ u ∈ s'.within, Sound l u) ∧
        Grown s.keysWithin s'.keysWithin
          (t.members.map (fun x => ⟨source, x.token⟩) ++ t.nested.flatMap (TypeDef.keysFrom source))
          new := by
  rcases t with ⟨token, namespaceName, name, flags, base, interfaces, genericParams, fields, methods,
    properties, events, nested, attributes⟩
  rw [TypeDef.within_eq, List.forall_mem_cons] at ht
  rw [within_eq, List.forall_mem_cons] at hs
  rw [absorb]
  refine (takeParts_yields hset ht.1 hs.1).bind ?_
  rintro s₁ new ⟨hhead, hnested, hs₁, hgrown⟩
  have htypes : ∀ t ∈ nested, ∀ u ∈ t.within, l.set.Declares ⟨source, u⟩ :=
    fun t ht' u hu => ht.2 u (List.mem_flatMap.2 ⟨t, ht', hu⟩)
  have hshapes : ∀ u ∈ withinAll s₁.nested, Sound l u := by
    rw [hnested, withinAll_eq]
    exact hs.2
  refine (absorbNested_yields hset nested htypes hshapes).bind ?_
  rintro inner more ⟨hinner, hgrown'⟩
  refine Yields.pure ⟨⟨hhead.source, hhead.origin, hhead.name, hhead.flags⟩, ?_, ?_⟩
  · rw [within_eq, List.forall_mem_cons]
    exact ⟨⟨hs₁.origin, hs₁.parts, hs₁.members⟩, by rwa [withinAll_eq] at hinner⟩
  · -- first the own tokens grow and then those of the nested shapes
    have hown := (hgrown.beside (keysOf s.nested)).perm List.perm_append_comm List.perm_append_comm
      (.refl _)
    have hin := hgrown'.beside s₁.keys
    rw [hnested] at hin
    rw [keysWithin_eq, keysWithin_eq, List.append_nil]
    exact hown.trans hin

/-- Nested types, and what is in them, are kept or redirected. -/
theorem absorbNested_yields (hset : l.set.WellNumbered) (ts : List TypeDef)
    (hts : ∀ t ∈ ts, ∀ u ∈ t.within, l.set.Declares ⟨source, u⟩) {shapes : List Shape}
    (hshapes : ∀ u ∈ withinAll shapes, Sound l u) :
    Yields (absorbNested l source shapes ts) fun shapes' new =>
      (∀ u ∈ withinAll shapes', Sound l u) ∧
        Grown (keysOf shapes) (keysOf shapes') (ts.flatMap (TypeDef.keysFrom source)) new := by
  cases ts with
  | nil => exact Yields.pure ⟨hshapes, .refl _⟩
  | cons t ts =>
    obtain ⟨ht, hts⟩ := List.forall_mem_cons.1 hts
    rw [absorbNested, List.flatMap_cons, TypeDef.keysFrom_eq]
    split
    case h_1 found index hfind =>
      -- there is a shape of that name, which takes the type in
      have hget : shapes[index]? = some found :=
        List.mem_zipIdx_iff_getElem?.1 (List.mem_of_find?_eq_some hfind)
      have hfound : ∀ u ∈ found.within, Sound l u := by
        intro u hu
        refine hshapes u ?_
        rw [withinAll_eq]
        exact List.mem_flatMap.2 ⟨found, List.mem_of_getElem? hget, hu⟩
      have hkept : found.key ∈ keysOf shapes := key_mem_keysOf (List.mem_of_getElem? hget)
      have htable : t.token.table = found.key.token.table :=
        (hset.table_typeDef (ht t t.self_mem_within)).trans
          (hset.table_typeDef (hfound found found.self_mem_within).origin).symm
      refine (Yields.redirect _ _).bind ?_
      rintro _ _ rfl
      refine (absorb_yields hset t ht hfound).bind ?_
      rintro found' new ⟨-, hfound', hgrown⟩
      refine (absorbNested_yields hset ts hts (forall_withinAll_set hshapes hfound')).mono ?_
      rintro shapes' more ⟨hshapes', hrest⟩
      obtain ⟨others, hold, hnew⟩ := keysOf_set hget found'
      have hinner := (hgrown.beside others).perm hold.symm hnew.symm (.refl _)
      exact ⟨hshapes', (Grown.drop ⟨source, t.token⟩ hkept htable).trans (hinner.trans hrest)⟩
    case h_2 =>
      -- there is none, and the type gets a shape behind the others
      have hnew := sound_ofType (ht t t.self_mem_within)
      refine (absorb_yields hset t ht hnew).bind ?_
      rintro s new ⟨-, hs, hgrown⟩
      refine (absorbNested_yields hset ts hts (forall_withinAll_append hshapes hs)).mono ?_
      rintro shapes' more ⟨hshapes', hrest⟩
      have hkeep := Grown.keep (keysOf shapes) ⟨source, t.token⟩
      have hinner := hgrown.beside (keysOf shapes)
      rw [keysWithin_ofType] at hinner
      rw [keysOf_append_singleton] at hrest
      exact ⟨hshapes', hkeep.trans (hinner.trans hrest)⟩

end

end

end Shape

end ModuleLinker
