import ModuleLinker.Proofs.Relocation.Accounting

namespace ModuleLinker

/-! # The shapes of a merge

The shapes that are built are those of the declarations with a place of their own, in the order of
declarations, and all definitions of the inputs are accounted for.
-/

/-- Whether a type has a place of its own in the output. -/
def Plan.emits (plan : Plan) (origin : Origin) : Bool :=
  match plan.placement? origin with
  | some (.emit ..) => true
  | _ => false

/-- The top-level types that the output has by a plan, in the order of declarations. -/
def ModuleSet.emitted (set : ModuleSet) (plan : Plan) : List Declaration :=
  set.declarations.filter fun d => plan.emits d.origin

namespace Shape

open Shaping

variable {l : Linkage} {plan : Plan}

/-- A shape that stands for a declaration as the plan says. -/
structure StandsFor (plan : Plan) (d : Declaration) (s : Shape) : Prop where
  source : s.source = d.origin.module
  origin : s.origin = d.type
  placed : ∃ name hide, plan.placement? d.origin = some (.emit name hide) ∧ s.name = name ∧
    s.flags = if hide then d.type.flags.withVisibility .notPublic else d.type.flags

theorem StandsFor.of_sameHead {d : Declaration} {s s' : Shape} (h : StandsFor plan d s)
    (hhead : SameHead s s') : StandsFor plan d s' := by
  refine ⟨hhead.source.trans h.source, hhead.origin.trans h.origin, ?_⟩
  obtain ⟨name, hide, hplace, hname, hflags⟩ := h.placed
  exact ⟨name, hide, hplace, hhead.name.trans hname, hhead.flags.trans hflags⟩

/-- What holds of the shapes when some declarations have been placed. -/
structure Built (l : Linkage) (plan : Plan) (done : List Declaration) (shapes : PlacedShapes)
    (redirects : List Redirect) : Prop where
  sound : ∀ p ∈ shapes, ∀ u ∈ p.2.within, Sound l u
  grown : Grown [] (keysOf (shapes.map Prod.snd))
    (done.flatMap fun d => d.type.keysFrom d.origin.module) redirects
  placed : List.Forall₂ (fun d p => p.1 = d.origin ∧ StandsFor plan d p.2)
    (done.filter fun d => plan.emits d.origin) shapes

/-- Shapes have the places of their declarations. -/
theorem Built.origins {done : List Declaration} {shapes : PlacedShapes} {redirects : List Redirect}
    (h : Built l plan done shapes redirects) :
    shapes.map Prod.fst = (done.filter fun d => plan.emits d.origin).map Declaration.origin := by
  have hplaced := h.placed
  clear h
  generalize (done.filter fun d => plan.emits d.origin) = ds at hplaced
  induction hplaced with
  | nil => rfl
  | cons hd _ ih => rw [List.map_cons, List.map_cons, hd.1, ih]

/-- A name and flags of its own do not matter to what is in a shape. -/
theorem keysWithin_rename (s : Shape) (name : String) (flags : TypeFlags) :
    { s with name, flags }.keysWithin = s.keysWithin := by
  rw [keysWithin_eq, keysWithin_eq]
  rfl

theorem sound_rename {s : Shape} (hs : ∀ u ∈ s.within, Sound l u) (name : String)
    (flags : TypeFlags) : ∀ u ∈ { s with name, flags }.within, Sound l u := by
  rw [within_eq, List.forall_mem_cons] at hs ⊢
  exact ⟨⟨hs.1.origin, hs.1.parts, hs.1.members⟩, hs.2⟩

/-- A type gets a shape of its own. -/
theorem Built.emit {done : List Declaration} {d : Declaration} {shapes : PlacedShapes}
    {redirects new : List Redirect} (h : Built l plan done shapes redirects) {s : Shape}
    {name : String} {hide : Bool} (hplace : plan.placement? d.origin = some (.emit name hide))
    (hhead : SameHead (ofType d.origin.module d.type) s) (hs : ∀ u ∈ s.within, Sound l u)
    (hgrown : Grown (ofType d.origin.module d.type).keysWithin s.keysWithin
      (d.type.members.map (fun x => ⟨d.origin.module, x.token⟩) ++
        d.type.nested.flatMap (TypeDef.keysFrom d.origin.module)) new) :
    Built l plan (done ++ [d])
      (shapes ++ [(d.origin, { s with
        name, flags := if hide then s.flags.withVisibility .notPublic else s.flags })])
      (redirects ++ new) := by
  have hemits : plan.emits d.origin := by
    rw [Plan.emits, hplace]
  constructor
  · refine List.forall_mem_append.2 ⟨h.sound, List.forall_mem_singleton.2 ?_⟩
    exact sound_rename hs _ _
  · rw [List.map_append, List.map_singleton, keysOf_append_singleton, keysWithin_rename,
      List.flatMap_append, List.flatMap_singleton, TypeDef.keysFrom_eq]
    rw [keysWithin_ofType] at hgrown
    have hkeep := Grown.keep (keysOf (shapes.map Prod.snd)) ⟨d.origin.module, d.type.token⟩
    exact h.grown.trans (hkeep.trans (hgrown.beside _))
  · rw [List.filter_append, List.filter_cons, if_pos hemits, List.filter_nil]
    refine List.rel_append h.placed (.cons ⟨rfl, ?_⟩ .nil)
    refine ⟨hhead.source, hhead.origin, name, hide, hplace, rfl, ?_⟩
    rw [hhead.flags]
    rfl

/-- Of shapes with different places only the one at the place is replaced. -/
theorem update_middle {before after : PlacedShapes} {target : Origin} {s : Shape}
    (hnodup : ((before ++ (target, s) :: after).map Prod.fst).Nodup) (new : Shape) :
    update target new (before ++ (target, s) :: after) = before ++ (target, new) :: after := by
  rw [List.map_append, List.map_cons, List.nodup_middle, List.nodup_cons, List.mem_append,
    not_or] at hnodup
  -- shapes with other places stay
  have hkeep (shapes : PlacedShapes) (h : target ∉ shapes.map Prod.fst) :
      update target new shapes = shapes := by
    unfold update
    conv_rhs => rw [← List.map_id shapes]
    refine List.map_congr_left fun p hp => ?_
    have hne : p.1 ≠ target := fun heq => h (heq ▸ List.mem_map_of_mem hp)
    dsimp only [id]
    rw [if_neg hne]
  have hself : update target new ((target, s) :: after) = (target, new) :: update target new after := by
    unfold update
    rw [List.map_cons]
    dsimp only
    rw [if_pos rfl]
  have happend : update target new (before ++ (target, s) :: after) =
      update target new before ++ update target new ((target, s) :: after) := List.map_append
  rw [happend, hkeep before hnodup.1.1, hself, hkeep after hnodup.1.2]

/-- An element may be replaced by another one that is related to the same elements. -/
theorem forall₂_replace {R : α → β → Prop} {as : List α} {before after : List β} {b b' : β}
    (h : List.Forall₂ R as (before ++ b :: after)) (hb : ∀ a, R a b → R a b') :
    List.Forall₂ R as (before ++ b' :: after) := by
  induction before generalizing as with
  | nil =>
    cases h with
    | cons ha has => exact .cons (hb _ ha) has
  | cons c before ih =>
    cases h with
    | cons ha has => exact .cons ha (ih has)

/-- A type becomes part of a shape that is there already. -/
theorem Built.into {done : List Declaration} {d : Declaration} {before after : PlacedShapes}
    {target : Origin} {s s' : Shape} {redirects new : List Redirect}
    (h : Built l plan done (before ++ (target, s) :: after) redirects)
    (hplace : plan.placement? d.origin = some (.into target)) (hset : l.set.WellNumbered)
    (hd : l.set.Declares ⟨d.origin.module, d.type⟩) (hhead : SameHead s s')
    (hs' : ∀ u ∈ s'.within, Sound l u)
    (hgrown : Grown s.keysWithin s'.keysWithin
      (d.type.members.map (fun x => ⟨d.origin.module, x.token⟩) ++
        d.type.nested.flatMap (TypeDef.keysFrom d.origin.module)) new) :
    Built l plan (done ++ [d]) (before ++ (target, s') :: after)
      (redirects ++ (⟨⟨d.origin.module, d.type.token⟩, s.key⟩ :: new)) := by
  have hemits : ¬ plan.emits d.origin := by
    rw [Plan.emits, hplace]
    exact Bool.false_ne_true
  have hmem : (target, s) ∈ before ++ (target, s) :: after :=
    List.mem_append_right _ List.mem_cons_self
  constructor
  · intro p hp
    rcases List.mem_append.1 hp with hbefore | hafter
    · exact h.sound p (List.mem_append_left _ hbefore)
    · rcases List.mem_cons.1 hafter with rfl | hafter
      · exact hs'
      · exact h.sound p (List.mem_append_right _ (List.mem_cons_of_mem _ hafter))
  · -- the token of the type is redirected, and its parts grow the shape that is there
    have hgrown₀ := h.grown
    rw [List.map_append, List.map_cons] at hgrown₀ ⊢
    have htable : d.type.token.table = s.key.token.table :=
      (hset.table_typeDef hd).trans
        (hset.table_typeDef (h.sound _ hmem s s.self_mem_within).origin).symm
    have hkept : s.key ∈ keysOf (before.map Prod.snd ++ s :: after.map Prod.snd) :=
      key_mem_keysOf (List.mem_append_right _ List.mem_cons_self)
    have hdrop := Grown.drop ⟨d.origin.module, d.type.token⟩ hkept htable
    have hinner := (hgrown.beside (keysOf (before.map Prod.snd ++ after.map Prod.snd))).perm
      (keysOf_middle _ _ s).symm (keysOf_middle _ _ s').symm (.refl _)
    rw [List.flatMap_append, List.flatMap_singleton, TypeDef.keysFrom_eq]
    exact hgrown₀.trans (hdrop.trans hinner)
  · rw [List.filter_append, List.filter_cons, if_neg hemits, List.filter_nil, List.append_nil]
    exact forall₂_replace h.placed fun d hd => ⟨hd.1, hd.2.of_sameHead hhead⟩

theorem placeDeclaration_settles (hset : l.set.WellNumbered) {done : List Declaration}
    {d : Declaration} (hnodup : (done.map Declaration.origin).Nodup)
    (hd : d ∈ l.set.declarations) {shapes : PlacedShapes} {redirects : List Redirect}
    (h : Built l plan done shapes redirects) :
    Settles (placeDeclaration l plan shapes d) fun shapes' new =>
      Built l plan (done ++ [d]) shapes' (redirects ++ new) := by
  have htypes : ∀ u ∈ d.type.within, l.set.Declares ⟨d.origin.module, u⟩ :=
    fun u hu => ModuleSet.declares_of_mem_declarations hd hu
  unfold placeDeclaration
  dsimp only
  split
  case h_1 => exact Settles.throw _
  case h_2 name hide hplace =>
    have hnew := sound_ofType (htypes _ d.type.self_mem_within)
    refine (Settles.lift (absorb_yields hset d.type htypes hnew)).bind ?_
    rintro s new ⟨hhead, hs, hgrown⟩
    refine Settles.pure ?_
    rw [List.append_nil]
    exact h.emit hplace hhead hs hgrown
  case h_3 target hplace =>
    split
    case h_1 => exact Settles.throw _
    case h_2 s hlookup =>
      have horigins := h.origins
      -- no two shapes have one place, so that only one of them is replaced
      have hdistinct : (shapes.map Prod.fst).Nodup := by
        rw [horigins]
        exact hnodup.sublist (List.filter_sublist.map _)
      obtain ⟨before, after, rfl, -⟩ := List.lookup_eq_some_iff.1 hlookup
      have hs := h.sound (target, s) (List.mem_append_right _ List.mem_cons_self)
      refine (Settles.lift (Yields.redirect _ _)).bind ?_
      rintro _ _ rfl
      refine (Settles.lift (absorb_yields hset d.type htypes hs)).bind ?_
      rintro s' new ⟨hhead, hs', hgrown⟩
      refine Settles.pure ?_
      rw [update_middle hdistinct, List.append_nil]
      exact h.into hplace hset (htypes _ d.type.self_mem_within) hhead hs' hgrown

/-- What every placed declaration keeps, the shapes being as they should, holds of all of them in the
end. -/
theorem buildAll_keeps (hset : l.set.WellNumbered) (plan : Plan)
    {P : List Declaration → PlacedShapes → Prop}
    (hnil : P [] [])
    (hstep : ∀ {done d shapes redirects}, ((done ++ [d]).map Declaration.origin).Nodup →
      d ∈ l.set.declarations → Built l plan done shapes redirects → P done shapes →
        Settles (placeDeclaration l plan shapes d) fun shapes' _ => P (done ++ [d]) shapes') :
    Settles (buildAll l plan) fun shapes redirects => ∃ placed : PlacedShapes,
      shapes = placed.map Prod.snd ∧ Built l plan l.set.declarations placed redirects ∧
        P l.set.declarations placed := by
  unfold buildAll
  refine Settles.bind (Settles.foldlM (motive := fun done shapes redirects =>
    Built l plan done shapes redirects ∧ P done shapes) ?_ ?_) ?_
  · exact ⟨⟨nofun, .refl [], .nil⟩, hnil⟩
  · rintro done d rest hdone shapes redirects ⟨hbuilt, hP⟩
    have hd : d ∈ l.set.declarations := by simp [← hdone]
    have hnodup : ((done ++ [d]).map Declaration.origin).Nodup := by
      refine l.set.nodup_origins.sublist (List.Sublist.map _ ?_)
      rw [← hdone]
      exact (List.singleton_sublist.2 List.mem_cons_self).append_left done
    have hold := (List.map_append ▸ hnodup).of_append_left
    exact (placeDeclaration_settles hset hold hd hbuilt).and (hstep hnodup hd hbuilt hP)
  · rintro placed redirects ⟨hbuilt, hP⟩
    apply Settles.pure
    rw [List.append_nil]
    exact ⟨placed, rfl, hbuilt, hP⟩

theorem buildAll_settles (hset : l.set.WellNumbered) (plan : Plan) :
    Settles (buildAll l plan) fun shapes redirects =>
      ∃ placed : PlacedShapes, shapes = placed.map Prod.snd ∧
        Built l plan l.set.declarations placed redirects := by
  have hkeeps := buildAll_keeps hset plan (P := fun _ _ => True) trivial
    fun hnodup hd hbuilt _ =>
      (placeDeclaration_settles hset (List.map_append ▸ hnodup).of_append_left hd hbuilt).mono
        fun _ _ _ => trivial
  apply hkeeps.mono
  rintro _ _ ⟨placed, hshapes, hbuilt, -⟩
  exact ⟨placed, hshapes, hbuilt⟩

/-- When all declarations have been placed, all definitions are accounted for. -/
theorem Built.accounted (hset : l.set.WellNumbered) {placed : PlacedShapes}
    {redirects : List Redirect} (h : Built l plan l.set.declarations placed redirects) :
    Accounted (placed.map Prod.snd) redirects := by
  have hsound : ∀ s ∈ withinAll (placed.map Prod.snd), Sound l s := by
    intro s hs
    obtain ⟨p, hp, hmem⟩ := mem_withinAll_snd.1 hs
    exact h.sound p hp s hmem
  constructor
  · intro s hs
    exact hset.table_typeDef (hsound s hs).origin
  · intro s hs x hx
    exact hset.table_eq ((hsound s hs).parts x hx)
  · rw [List.nodup_iff_count_le_one]
    intro k
    -- kept and redirected tokens together are those of the inputs, none of which is there twice
    have hcount := h.grown.count k
    have hone := List.nodup_iff_count_le_one.1 hset.nodup_keys k
    rw [List.count_append]
    rw [List.count_nil, Nat.zero_add] at hcount
    exact hcount.trans_le hone
  · exact h.grown.kept

end Shape

end ModuleLinker
