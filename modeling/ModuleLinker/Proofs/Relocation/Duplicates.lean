import ModuleLinker.Plan.Build
import ModuleLinker.Proofs.Relocation.Output
import ModuleLinker.Proofs.Relocation.References
import ModuleLinker.Proofs.Relocation.Shaping
import ModuleLinker.Proofs.Signature.MemberSpelling

namespace ModuleLinker

/-! # Dropped members and what takes their place

A member is dropped for another one if both have the same key, and keys are made of names. So the two
agree in everything that names show. What they need not agree in is which types the names mean: two
modules may have different types of one name, and then a use of the dropped member becomes the use of a
member with another signature.
-/

/-! ## What tokens are redirected to

A token is redirected in three places: that of a member to the member which the shape has under the
same key, that of a nested type to the shape of its name, and that of a type which becomes part of
another one. No well-numbered inputs are asked for here: whatever the tokens are, a redirected member
has the key of the one that it is redirected to.
-/

namespace Shape

open Shaping

variable {l : Linkage} {source : Nat}

/-- What a redirect may do: it makes a type part of a type, or a member one with a member of its
key. -/
inductive Justified (l : Linkage) : Redirect → Prop
  | type {t u : Sourced TypeDef} (ht : l.set.Declares t) (hu : l.set.Declares u) :
    Justified l ⟨⟨t.source, t.value.token⟩, ⟨u.source, u.value.token⟩⟩
  | member {x y : Sourced Member} (hx : l.set.DeclaresMember x) (hy : l.set.DeclaresMember y)
      (hkey : x.value.key (l.names x.source) = y.value.key (l.names y.source)) :
    Justified l ⟨partKey x, partKey y⟩

/-- What redirects rely on: the type that a shape started from is declared, and each key is that of a
declared member with its token. -/
structure Filed (l : Linkage) (s : Shape) : Prop where
  origin : l.set.Declares ⟨s.source, s.origin⟩
  members : ∀ e ∈ s.members, ∃ y, l.set.DeclaresMember y ∧
    e = (y.value.key (l.names y.source), partKey y)

theorem filed_ofType {t : TypeDef} (ht : l.set.Declares ⟨source, t⟩) :
    ∀ u ∈ (ofType source t).within, Filed l u := by
  intro u hu
  obtain rfl := List.mem_singleton.1 hu
  exact ⟨ht, nofun⟩

/-! ### Members -/

/-- Members are added without a change to what they are filed under. -/
theorem addMember_rest (source : Nat) (t : TypeDef) (token : Token) (s : Shape) :
    (addMember source t token s).source = s.source ∧ (addMember source t token s).origin = s.origin ∧
      (addMember source t token s).members = s.members ∧
      (addMember source t token s).nested = s.nested := by
  unfold addMember
  split_ifs <;> exact ⟨rfl, rfl, rfl, rfl⟩

/-- A member is filed under its key, or redirected to the one that is. -/
theorem takeMember_justified (t : TypeDef) {x : Member} (hx : l.set.DeclaresMember ⟨source, x⟩)
    {s : Shape} (hs : Filed l s) :
    Yields (takeMember source t s (x.key (l.names source), x.token)) fun s' new =>
      (s'.nested = s.nested ∧ Filed l s') ∧ ∀ r ∈ new, Justified l r := by
  unfold takeMember
  dsimp only
  split
  case h_1 kept hlookup =>
    obtain ⟨before, after, hmembers, -⟩ := List.lookup_eq_some_iff.1 hlookup
    obtain ⟨y, hy, heq⟩ := hs.members (x.key (l.names source), kept) (by simp [hmembers])
    obtain ⟨hkey, rfl⟩ := Prod.mk.inj heq
    refine (Yields.redirect _ _).bind ?_
    rintro _ _ rfl
    refine Yields.pure ⟨⟨rfl, hs⟩, ?_⟩
    exact List.forall_mem_singleton.2 (Justified.member hx hy hkey)
  case h_2 =>
    obtain ⟨hsource, horigin, hmembers, hnested⟩ := addMember_rest source t x.token
      { s with members := s.members ++ [(x.key (l.names source), ⟨source, x.token⟩)] }
    refine Yields.pure ⟨⟨hnested, ?_, ?_⟩, nofun⟩
    · rw [hsource, horigin]
      exact hs.origin
    · rw [hmembers]
      refine List.forall_mem_append.2 ⟨hs.members, List.forall_mem_singleton.2 ?_⟩
      exact ⟨⟨source, x⟩, hx, rfl⟩

theorem takeParts_justified {t : TypeDef} (ht : l.set.Declares ⟨source, t⟩) {s : Shape}
    (hs : Filed l s) :
    Yields (takeParts l source t s) fun s' new =>
      (s'.nested = s.nested ∧ Filed l s') ∧ ∀ r ∈ new, Justified l r := by
  unfold takeParts
  dsimp only
  have hmembers : Yields ((t.memberKeys (l.names source)).foldlM (takeMember source t) s)
      fun s' new => (s'.nested = s.nested ∧ Filed l s') ∧ ∀ r ∈ new, Justified l r := by
    refine Yields.foldlM (motive := fun _ s' new =>
      (s'.nested = s.nested ∧ Filed l s') ∧ ∀ r ∈ new, Justified l r) ?_ ?_
    · exact ⟨⟨rfl, hs⟩, nofun⟩
    · rintro done e he b new ⟨⟨hnested, hb⟩, hnew⟩
      rw [TypeDef.memberKeys_eq] at he
      obtain ⟨x, hx, rfl⟩ := List.mem_map.1 he
      refine (takeMember_justified t ⟨t, ht, hx⟩ hb).mono ?_
      rintro c more ⟨⟨hnested', hc⟩, hmore⟩
      exact ⟨⟨hnested'.trans hnested, hc⟩, List.forall_mem_append.2 ⟨hnew, hmore⟩⟩
  refine hmembers.bind ?_
  rintro s₁ new ⟨⟨hnested, hs₁⟩, hnew⟩
  -- interfaces and attributes redirect nothing
  obtain ⟨seen, heq⟩ := takeInterfaces_eq source (l.names source) t.interfaces s₁
  rw [heq]
  refine (takeAttributes_yields l source t.attributes _).mono ?_
  rintro _ _ ⟨⟨kept, rfl⟩, rfl⟩
  rw [List.append_nil]
  exact ⟨⟨hnested, hs₁.origin, hs₁.members⟩, hnew⟩

/-! ### Types -/

mutual

theorem absorb_justified (t : TypeDef) (ht : ∀ u ∈ t.within, l.set.Declares ⟨source, u⟩) {s : Shape}
    (hs : ∀ u ∈ s.within, Filed l u) :
    Yields (absorb l source s t) fun s' new =>
      (∀ u ∈ s'.within, Filed l u) ∧ ∀ r ∈ new, Justified l r := by
  rcases t with ⟨token, namespaceName, name, flags, base, interfaces, genericParams, fields, methods,
    properties, events, nested, attributes⟩
  obtain ⟨ht, htypes⟩ := TypeDef.forall_within_iff.1 ht
  obtain ⟨hs, hshapes⟩ := forall_within_iff.1 hs
  rw [absorb]
  refine (takeParts_justified ht hs).bind ?_
  rintro s₁ new ⟨⟨hnested, hs₁⟩, hnew⟩
  rw [← hnested] at hshapes
  refine (absorbNested_justified nested htypes hshapes).bind ?_
  rintro inner more ⟨hinner, hmore⟩
  refine Yields.pure ⟨forall_within_iff.2 ⟨⟨hs₁.origin, hs₁.members⟩, hinner⟩, ?_⟩
  rw [List.append_nil]
  exact List.forall_mem_append.2 ⟨hnew, hmore⟩

theorem absorbNested_justified (ts : List TypeDef)
    (hts : ∀ t ∈ ts, ∀ u ∈ t.within, l.set.Declares ⟨source, u⟩) {shapes : List Shape}
    (hshapes : ∀ u ∈ withinAll shapes, Filed l u) :
    Yields (absorbNested l source shapes ts) fun shapes' new =>
      (∀ u ∈ withinAll shapes', Filed l u) ∧ ∀ r ∈ new, Justified l r := by
  cases ts with
  | nil => exact Yields.pure ⟨hshapes, nofun⟩
  | cons t ts =>
    obtain ⟨ht, hts⟩ := List.forall_mem_cons.1 hts
    rw [absorbNested]
    split
    case h_1 found index hfind =>
      have hget : shapes[index]? = some found :=
        List.mem_zipIdx_iff_getElem?.1 (List.mem_of_find?_eq_some hfind)
      have hfound := forall_within_of_mem hshapes (List.mem_of_getElem? hget)
      have htype : Justified l ⟨⟨source, t.token⟩, found.key⟩ :=
        .type (ht t t.self_mem_within) (hfound found found.self_mem_within).origin
      refine (Yields.redirect _ _).bind ?_
      rintro _ _ rfl
      refine (absorb_justified t ht hfound).bind ?_
      rintro found' new ⟨hfound', hnew⟩
      refine (absorbNested_justified ts hts (forall_withinAll_set hshapes hfound')).mono ?_
      rintro shapes' more ⟨hshapes', hmore⟩
      have hinner := List.forall_mem_append.2 ⟨hnew, hmore⟩
      exact ⟨hshapes', List.forall_mem_append.2 ⟨List.forall_mem_singleton.2 htype, hinner⟩⟩
    case h_2 =>
      refine (absorb_justified t ht (filed_ofType (ht t t.self_mem_within))).bind ?_
      rintro s new ⟨hs, hnew⟩
      refine (absorbNested_justified ts hts (forall_withinAll_append hshapes hs)).mono ?_
      rintro shapes' more ⟨hshapes', hmore⟩
      exact ⟨hshapes', List.forall_mem_append.2 ⟨hnew, hmore⟩⟩

end

/-! ### The redirects of a merge -/

/-- The shapes made so far are filed, and the redirects made so far are justified. -/
structure FiledSo (l : Linkage) (shapes : PlacedShapes) (redirects : List Redirect) : Prop where
  filed : ∀ p ∈ shapes, ∀ u ∈ p.2.within, Filed l u
  justified : ∀ r ∈ redirects, Justified l r

theorem placeDeclaration_justified (plan : Plan) {d : Declaration} (hd : d ∈ l.set.declarations)
    {shapes : PlacedShapes} {redirects : List Redirect} (h : FiledSo l shapes redirects) :
    Settles (placeDeclaration l plan shapes d) fun shapes' new =>
      FiledSo l shapes' (redirects ++ new) := by
  have htypes : ∀ u ∈ d.type.within, l.set.Declares ⟨d.origin.module, u⟩ :=
    fun u hu => ModuleSet.declares_of_mem_declarations hd hu
  have htype := htypes _ d.type.self_mem_within
  unfold placeDeclaration
  dsimp only
  split
  case h_1 => exact Settles.throw _
  case h_2 name hide hplace =>
    refine (Settles.lift (absorb_justified d.type htypes (filed_ofType htype))).bind ?_
    rintro s new ⟨hs, hnew⟩
    refine Settles.pure ⟨?_, ?_⟩
    · refine List.forall_mem_append.2 ⟨h.filed, List.forall_mem_singleton.2 ?_⟩
      obtain ⟨hself, hinner⟩ := forall_within_iff.1 hs
      exact forall_within_iff.2 ⟨⟨hself.origin, hself.members⟩, hinner⟩
    · rw [List.append_nil]
      exact List.forall_mem_append.2 ⟨h.justified, hnew⟩
  case h_3 target hplace =>
    split
    case h_1 => exact Settles.throw _
    case h_2 s hlookup =>
      obtain ⟨before, after, hshapes, -⟩ := List.lookup_eq_some_iff.1 hlookup
      have hs := h.filed (target, s) (by simp [hshapes])
      refine (Settles.lift (Yields.redirect _ _)).bind ?_
      rintro _ _ rfl
      refine (Settles.lift (absorb_justified d.type htypes hs)).bind ?_
      rintro s' new ⟨hs', hnew⟩
      refine Settles.pure ⟨?_, ?_⟩
      · -- a shape is the one that took the type in, or was there before
        intro p hp
        obtain ⟨⟨origin, old⟩, hold, rfl⟩ := List.mem_map.1 hp
        dsimp only
        split
        · exact hs'
        · exact h.filed _ hold
      · have hjoin : Justified l ⟨⟨d.origin.module, d.type.token⟩, s.key⟩ :=
          .type htype (hs s s.self_mem_within).origin
        rw [List.append_nil]
        exact List.forall_mem_append.2 ⟨h.justified, List.forall_mem_cons.2 ⟨hjoin, hnew⟩⟩

/-- Every redirect of a merge is justified. -/
theorem buildAll_justified (l : Linkage) (plan : Plan) :
    Settles (buildAll l plan) fun _ redirects => ∀ r ∈ redirects, Justified l r := by
  unfold buildAll
  refine Settles.bind (Settles.foldlM (motive := fun _ shapes redirects =>
    FiledSo l shapes redirects) ?_ ?_) ?_
  · exact ⟨nofun, nofun⟩
  · rintro done d rest hdone shapes redirects h
    exact placeDeclaration_justified plan (by simp [← hdone]) h
  · rintro placed redirects h
    apply Settles.pure
    rw [List.append_nil]
    exact h.justified

end Shape

namespace Relocation

open Shape Shaping

variable {set : ModuleSet} {plan : Plan} {policy : Policy} {l : Linkage} {sub : Substitution}

/-! ## Before types are written -/

/-- What a relocation has at hand when it writes the types. -/
structure Groundwork where
  shapes : List Shape
  redirects : List Redirect
  /-- The counterparts of all tokens. -/
  substitution : Substitution

/-- The passes of a relocation before it writes the types. -/
def groundwork (l : Linkage) (plan : Plan) (log : Log) : Except Fault Groundwork := do
  let ((shapes, redirects), _) := ((buildAll l plan).run.run []).run log
  let shapes ← shapes
  let (substitution, allocator) ← Shape.substitution shapes redirects
  let (imported, tables) := (importAll l plan).run.run ⟨substitution, allocator, [], [], []⟩
  let _ ← imported
  return ⟨shapes, redirects, tables.substitution⟩

/-- The types of the output are written from the groundwork. -/
theorem run_groundwork {log : Log} {out : Module}
    (h : ((run set plan policy).run.run log).1 = .ok out) :
    ∃ g log' sub a attributes tables, groundwork (.ofSet set policy) plan log = .ok g ∧
      ((buildAll (.ofSet set policy) plan).run.run []).run log = ((.ok g.shapes, g.redirects), log') ∧
      Shape.substitution g.shapes g.redirects = .ok (sub, a) ∧
      (importAll (.ofSet set policy) plan).run.run ⟨sub, a, [], [], []⟩ = (.ok attributes, tables) ∧
      g.substitution = tables.substitution ∧
      writeAll (.ofSet set policy) g.substitution g.shapes = .ok out.types := by
  obtain ⟨shapes, sub, a, attributes, tables, log', hlayout, himport, hwritten, -⟩ := run_ok h
  obtain ⟨redirects, hbuild, hsub⟩ := layOut_eq_ok hlayout
  refine ⟨⟨shapes, redirects, tables.substitution⟩, log', sub, a, attributes, tables, ?_, hbuild, hsub,
    himport, rfl, hwritten⟩
  simp only [groundwork, hbuild, hsub, himport, bind, Except.bind, pure, Except.pure]

/-! ## Dropped members -/

/-- The signature of a member, rewritten as the tokens of its module demand. -/
def rewritten (sub : Substitution) (x : Sourced Member) : MemberSig :=
  x.value.signature.rename (sub.counterpart x.source)

/-- The uses of types in the rewritten signature of a member. -/
def rewrittenUses (sub : Substitution) (x : Sourced Member) : List TypeUse :=
  x.value.signature.uses.map (TypeUse.rename (sub.counterpart x.source))

/-- The signature of a member as the output has it is the rewritten one. -/
theorem signature_memberImage (sub : Substitution) (x : Sourced Member) :
    (memberImage l sub.counterpart x).signature = rewritten sub x := by
  rcases x with ⟨source, y | y | y | y⟩ <;> rfl

/-- What a dropped member `x` has in common with the member `y` that takes its place. Both have one
key, and if the names of the types in them are plain, their signatures look the same. They become the
same if, moreover, each use of a type in one becomes the same as that in the other, and only then. -/
structure Duplicates (l : Linkage) (sub : Substitution) (x y : Sourced Member) : Prop where
  dropped : l.set.DeclaresMember x
  kept : l.set.DeclaresMember y
  key : x.value.key (l.names x.source) = y.value.key (l.names y.source)
  spelling : x.value.Plain (l.names x.source) → y.value.Plain (l.names y.source) →
    x.value.spelling (l.names x.source) = y.value.spelling (l.names y.source)
  rewritten_iff : x.value.Plain (l.names x.source) → y.value.Plain (l.names y.source) →
    (rewritten sub x = rewritten sub y ↔ rewrittenUses sub x = rewrittenUses sub y)

theorem duplicates_of_key_eq (sub : Substitution) {x y : Sourced Member}
    (hx : l.set.DeclaresMember x) (hy : l.set.DeclaresMember y)
    (hkey : x.value.key (l.names x.source) = y.value.key (l.names y.source)) :
    Duplicates l sub x y := by
  have hspelling := fun hplain hplain' => Member.spelling_eq_of_key_eq hplain hplain' hkey
  refine ⟨hx, hy, hkey, hspelling, fun hplain hplain' => ?_⟩
  exact MemberSig.rename_eq_rename_iff _ _ (hspelling hplain hplain')

/-- Whether a redirect makes a type part of another one. -/
def JoinsTypes (set : ModuleSet) (r : Redirect) : Prop :=
  ∃ t u, set.Declares t ∧ set.Declares u ∧
    r = ⟨⟨t.source, t.value.token⟩, ⟨u.source, u.value.token⟩⟩

/-- A redirect of a merge makes a type part of another one, or is that of a dropped member. -/
theorem joinsTypes_or_duplicates (sub : Substitution) {r : Redirect} (h : Justified l r) :
    JoinsTypes l.set r ∨ ∃ x y, r = ⟨partKey x, partKey y⟩ ∧ Duplicates l sub x y := by
  cases h with
  | type ht hu => exact .inl ⟨_, _, ht, hu, rfl⟩
  | member hx hy hkey => exact .inr ⟨_, _, rfl, duplicates_of_key_eq sub hx hy hkey⟩

/-- The output has one member for the tokens of both `x` and `y`, and the signature of this member is
that of `y`. -/
def Replaced (sub : Substitution) (out : Module) (x y : Sourced Member) : Prop :=
  ∃ t ∈ out.allTypes, ∃ z ∈ t.members, z.token = sub.counterpart x.source x.value.token ∧
    z.token = sub.counterpart y.source y.value.token ∧ z.signature = rewritten sub y

/-! ## Well-numbered inputs -/

theorem partKey_injective (hset : l.set.WellNumbered) {x y : Sourced Member}
    (hx : l.set.DeclaresMember x) (hy : l.set.DeclaresMember y) (h : partKey x = partKey y) :
    x = y := by
  rcases x with ⟨source, x⟩
  rcases y with ⟨source', y⟩
  obtain ⟨rfl, htoken⟩ := SourceToken.mk.inj h
  rw [hset.member_eq hx hy htoken]

theorem partKey_ne_type (hset : l.set.WellNumbered) {x : Sourced Member}
    (hx : l.set.DeclaresMember x) {t : Sourced TypeDef} (ht : l.set.Declares t) :
    partKey x ≠ ⟨t.source, t.value.token⟩ := by
  intro h
  have htable : x.value.token.table = t.value.token.table :=
    congrArg (fun k => k.token.table) h
  rw [hset.table_eq hx, hset.table_typeDef ht] at htable
  exact x.value.table_ne_typeDef htable

/-- In well-numbered inputs, a redirect between members says that one is dropped for the other. -/
theorem duplicates_of_justified (sub : Substitution) (hset : l.set.WellNumbered)
    {x y : Sourced Member} (hx : l.set.DeclaresMember x) (hy : l.set.DeclaresMember y)
    (h : Justified l ⟨partKey x, partKey y⟩) : Duplicates l sub x y := by
  rcases joinsTypes_or_duplicates sub h with ⟨t, u, ht, -, heq⟩ | ⟨x', y', heq, hduplicates⟩
  · exact absurd (Redirect.mk.inj heq).1 (partKey_ne_type hset hx ht)
  · obtain ⟨hdropped, hkept⟩ := Redirect.mk.inj heq
    rw [partKey_injective hset hx hduplicates.dropped hdropped,
      partKey_injective hset hy hduplicates.kept hkept]
    exact hduplicates

/-- No token of a member is shared by all modules. -/
theorem counterpart_member (hset : l.set.WellNumbered) {x : Sourced Member}
    (hx : l.set.DeclaresMember x) {new : Token} (h : sub.get? (partKey x) = some new) :
    sub.counterpart x.source x.value.token = new := by
  have hshared : ¬ Substitution.isShared x.value.token := by
    refine Substitution.not_isShared ?_
    rw [hset.table_eq hx]
    exact x.value.table_mem_definitions
  exact Substitution.counterpart_of_get? hshared h

/-- The token of a member of shapes is that of one of their parts. -/
theorem mem_parts_of_key (hset : l.set.WellNumbered) {placed : PlacedShapes}
    {redirects : List Redirect} (hbuilt : Built l plan l.set.declarations placed redirects)
    {y : Sourced Member} (hy : l.set.DeclaresMember y)
    (h : partKey y ∈ keysOf (placed.map Prod.snd)) :
    ∃ s ∈ withinAll (placed.map Prod.snd), y ∈ s.parts := by
  obtain ⟨s, hs, hkey⟩ := List.mem_flatMap.1 h
  refine ⟨s, hs, ?_⟩
  obtain ⟨p, hp, hmem⟩ := mem_withinAll_snd.1 hs
  have hsound := hbuilt.sound p hp s hmem
  rcases List.mem_cons.1 hkey with htype | hpart
  · exact absurd htype (partKey_ne_type hset hy hsound.origin)
  · obtain ⟨z, hz, heq⟩ := List.mem_map.1 hpart
    rwa [partKey_injective hset hy (hsound.parts z hz) heq.symm]

/-- What a member is dropped for is in the output, and the dropped one has its token. -/
theorem replaced_of_mem (hset : l.set.WellNumbered) {placed : PlacedShapes}
    {redirects : List Redirect} (hbuilt : Built l plan l.set.declarations placed redirects)
    {start : Substitution} {a : Allocator}
    (hstart : Shape.substitution (placed.map Prod.snd) redirects = .ok (start, a))
    (hkept : ∀ k t, start.get? k = some t → sub.get? k = some t) {out : Module}
    (hwritten : writeAll l sub (placed.map Prod.snd) = .ok out.types) {x y : Sourced Member}
    (hx : l.set.DeclaresMember x) (hy : l.set.DeclaresMember y)
    (hmem : ⟨partKey x, partKey y⟩ ∈ redirects) : Replaced sub out x y := by
  have haccounted := hbuilt.accounted hset
  have hnumbered := substitution_ok haccounted hstart
  have hkey := (haccounted.kept _ hmem).1
  obtain ⟨new, hnew, -⟩ := hnumbered.kept _ hkey
  have hdropped := hkept _ _ ((hnumbered.dropped _ hmem).trans hnew)
  have hboth : sub.counterpart x.source x.value.token = sub.counterpart y.source y.value.token := by
    rw [counterpart_member hset hx hdropped, counterpart_member hset hy (hkept _ _ hnew)]
  obtain ⟨s, hs, hpart⟩ := mem_parts_of_key hset hbuilt hy hkey
  have htoken : (memberImage l sub.counterpart y).token = sub.counterpart y.source y.value.token := by
    rw [memberImage, Member.token_rename, Member.token_withAttributes]
  refine ⟨s.image l sub, ?_, memberImage l sub.counterpart y, ?_, htoken.trans hboth.symm, htoken,
    signature_memberImage sub y⟩
  · rw [allTypes_eq hwritten]
    exact List.mem_map_of_mem hs
  · rw [members_image]
    exact List.mem_map_of_mem hpart

/-! ## The redirects of a relocation -/

/-- Whatever a relocation redirects is a type that becomes part of another one, or a member that is
dropped for one of its key. In well-numbered inputs the latter is in the output, and the token of the
former becomes that of it. -/
theorem run_redirects_duplicates {log : Log} {out : Module}
    (h : ((run set plan policy).run.run log).1 = .ok out) :
    ∃ g, groundwork (.ofSet set policy) plan log = .ok g ∧
      writeAll (.ofSet set policy) g.substitution g.shapes = .ok out.types ∧
      (∀ r ∈ g.redirects, JoinsTypes set r ∨ ∃ x y, r = ⟨partKey x, partKey y⟩ ∧
        Duplicates (.ofSet set policy) g.substitution x y) ∧
      (set.WellNumbered → ∀ x y, set.DeclaresMember x → set.DeclaresMember y →
        ⟨partKey x, partKey y⟩ ∈ g.redirects →
          Duplicates (.ofSet set policy) g.substitution x y ∧
          Replaced g.substitution out x y) := by
  obtain ⟨g, log', start, a, attributes, tables, hground, hbuild, hstart, himport, hsub, hwritten⟩ :=
    run_groundwork h
  have hjustified := (buildAll_justified (.ofSet set policy) plan).of_run hbuild
  refine ⟨g, hground, hwritten, fun r hr => joinsTypes_or_duplicates _ (hjustified r hr), ?_⟩
  intro hset x y hx hy hmem
  have hset' : (Linkage.ofSet set policy).set.WellNumbered := hset
  refine ⟨duplicates_of_justified _ hset' hx hy (hjustified _ hmem), ?_⟩
  obtain ⟨placed, hshapes, hbuilt⟩ := (buildAll_settles hset' plan).of_run hbuild
  obtain ⟨hclosed, -⟩ := importAll_keeps plan (.initial _ start a) _ _ himport
  rw [hshapes] at hstart hwritten
  rw [hsub] at hwritten ⊢
  exact replaced_of_mem hset' hbuilt hstart hclosed.kept hwritten hx hy hmem

/-! ## Fields of types of one name -/

/-- A field `x` of the type that the first type reference of its module means. -/
def fieldW : Field := ⟨⟨0x04000001⟩, "x", ⟨0x6⟩, .classType ⟨0x01000001⟩, []⟩

/-- A class `N.T` that has this field. -/
def fieldHolder : TypeDef :=
  ⟨⟨0x02000001⟩, "N", "T", ⟨0x1⟩, none, [], [], [fieldW], [], [], [], [], []⟩

/-- A module with this class, the type of the field being `Ext.W` of a library. -/
def libraryUser (name library : String) : LoadedModule :=
  ⟨⟨name ++ ".dll"⟩, { Module.ofIdentity (.ofName name ⟨1, 0, 0, 0⟩) .dll with
    references := [.ofName library ⟨1, 0, 0, 0⟩]
    typeRefs := [⟨⟨0x01000001⟩, .reference 0, "Ext", "W"⟩]
    types := [fieldHolder] }⟩

/-- Two modules with this class. -/
def libraryUsers (first second : String) : ModuleSet :=
  { primary := libraryUser "A" first, others := [libraryUser "B" second], references := []
    attributeSource := none }

/-- The plan to make one class of the two. -/
def pairPlan : Plan :=
  { placements := [(⟨0, 0⟩, .emit "T" false), (⟨1, 0⟩, .into ⟨0, 0⟩)], resources := []
    attributes := [], renames := [], hidden := 0 }

/-- The field of one of the modules. -/
def fieldOf (source : Nat) : Sourced Member := ⟨source, .field fieldW⟩

theorem declaresMember_fieldOf (first second : String) {source : Nat} (h : source < 2) :
    (libraryUsers first second).DeclaresMember (fieldOf source) := by
  refine ⟨fieldHolder, ?_, List.mem_cons_self⟩
  match source, h with
  | 0, _ => exact ⟨_, rfl, List.mem_cons_self⟩
  | 1, _ => exact ⟨_, rfl, List.mem_cons_self⟩

/-- Where the library is one, the second field is dropped for a field of the same type. -/
theorem run_redirects_to_same_type :
    let set := libraryUsers "Lib" "Lib"
    ∃ out g, ((run set pairPlan unionPolicy).run.run []).1 = .ok out ∧
      groundwork (.ofSet set unionPolicy) pairPlan [] = .ok g ∧
      ⟨partKey (fieldOf 1), partKey (fieldOf 0)⟩ ∈ g.redirects ∧
      Replaced g.substitution out (fieldOf 1) (fieldOf 0) ∧
      rewritten g.substitution (fieldOf 1) = rewritten g.substitution (fieldOf 0) := by
  intro set
  have hok : ((run set pairPlan unionPolicy).run.run []).1.isOk := by decide +kernel
  obtain ⟨out, hrun⟩ := exists_eq_ok hok
  obtain ⟨g, hground, -, -, hwell⟩ := run_redirects_duplicates hrun
  have hshown : (groundwork (.ofSet set unionPolicy) pairPlan []).toOption.map (fun g => decide
      (⟨partKey (fieldOf 1), partKey (fieldOf 0)⟩ ∈ g.redirects ∧
        rewrittenUses g.substitution (fieldOf 1) = rewrittenUses g.substitution (fieldOf 0))) =
      some true := by
    decide +kernel
  rw [hground] at hshown
  obtain ⟨hmem, huses⟩ := of_decide_eq_true (Option.some.inj hshown)
  obtain ⟨hduplicates, hreplaced⟩ := hwell (by decide) _ _
    (declaresMember_fieldOf _ _ (by decide)) (declaresMember_fieldOf _ _ (by decide)) hmem
  have hplain : ∀ source < 2, (fieldOf source).value.Plain
      ((Linkage.ofSet set unionPolicy).names source) := by
    decide +kernel
  exact ⟨out, g, hrun, hground, hmem, hreplaced,
    (hduplicates.rewritten_iff (hplain 1 (by decide)) (hplain 0 (by decide))).2 huses⟩

/-- Two libraries may have a type `Ext.W` each. The keys of the fields are the same all the same, and
the second field is dropped for one of another type. -/
theorem run_redirects_to_other_type :
    let set := libraryUsers "Lib1" "Lib2"
    set.WellNumbered ∧ ((Plan.build set (.ofSet set) unionPolicy).run.run []).1 = .ok pairPlan ∧
    ∃ out g, ((run set pairPlan unionPolicy).run.run []).1 = .ok out ∧
      groundwork (.ofSet set unionPolicy) pairPlan [] = .ok g ∧
      (∀ source < 2, set.DeclaresMember (fieldOf source)) ∧
      ⟨partKey (fieldOf 1), partKey (fieldOf 0)⟩ ∈ g.redirects ∧
      rewritten g.substitution (fieldOf 1) ≠ rewritten g.substitution (fieldOf 0) := by
  intro set
  have hok : ((run set pairPlan unionPolicy).run.run []).1.isOk := by decide +kernel
  obtain ⟨out, hrun⟩ := exists_eq_ok hok
  obtain ⟨g, -, -, -, -, -, hground, -⟩ := run_groundwork hrun
  have hshown : (groundwork (.ofSet set unionPolicy) pairPlan []).toOption.map (fun g => decide
      (⟨partKey (fieldOf 1), partKey (fieldOf 0)⟩ ∈ g.redirects ∧
        rewritten g.substitution (fieldOf 1) ≠ rewritten g.substitution (fieldOf 0))) = some true := by
    decide +kernel
  rw [hground] at hshown
  exact ⟨by decide, by decide +kernel, out, g, hrun, hground,
    fun source hsource => declaresMember_fieldOf _ _ hsource, of_decide_eq_true (Option.some.inj hshown)⟩

end Relocation

end ModuleLinker
