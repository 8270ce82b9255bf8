import ModuleLinker.Proofs.Relocation.BoundMembers
import ModuleLinker.Proofs.Relocation.WrittenOut

namespace ModuleLinker

/-! # What a relocation leaves

A relocation that answers has bound all references of the inputs, and everything in the output that uses
tokens is the image of what an input has.
-/

namespace Relocation

open Shape ImportTables

variable {l : Linkage} {set : ModuleSet} {plan : Plan} {policy : Policy} {rs : List Redirect}

/-! ## Where importing starts -/

/-- With tokens that are numbered well, every definition has a counterpart. -/
theorem known_of_mem_keys (hset : l.set.WellNumbered) {log log' : Log} {shapes : List Shape}
    {sub : Substitution} {a : Allocator} (h : (layOut l plan).run.run log = (.ok (shapes, sub, a), log'))
    {k : SourceToken} (hk : k ∈ l.set.keys) : ∃ new, sub.get? k = some new := by
  obtain ⟨placed, rs, rfl, hbuilt, hnumbered⟩ := layOut_ok hset h
  have hcount : (keysOf (placed.map Prod.snd)).count k + (rs.map Redirect.dropped).count k =
      l.set.keys.count k := by
    have hgrown := hbuilt.grown.count k
    rwa [List.count_nil, Nat.zero_add] at hgrown
  have hpos : 0 < l.set.keys.count k := List.count_pos_iff.2 hk
  by_cases hkept : k ∈ keysOf (placed.map Prod.snd)
  · obtain ⟨new, hnew, -⟩ := hnumbered.kept k hkept
    exact ⟨new, hnew⟩
  · -- what is not kept is redirected to something that is
    have hdropped : 0 < (rs.map Redirect.dropped).count k := by
      have hzero := List.count_eq_zero.2 hkept
      omega
    obtain ⟨r, hr, rfl⟩ := List.mem_map.1 (List.count_pos_iff.1 hdropped)
    obtain ⟨new, hnew, -⟩ := hnumbered.kept _ ((hbuilt.accounted hset).kept r hr).1
    exact ⟨new, (hnumbered.dropped r hr).trans hnew⟩

/-- Before any reference is imported, the tables are wired. -/
theorem wired_start (hset : l.set.Identified) {placed : PlacedShapes}
    (hlanded : Landed l plan l.set.declarations placed rs) {sub : Substitution} {a : Allocator}
    (hsub : substitution (placed.map Prod.snd) rs = .ok (sub, a))
    (hdefined : l.set.WellNumbered → ∀ k ∈ l.set.keys, ∃ new, sub.get? k = some new) :
    Wired l ⟨sub, a, [], [], []⟩ := by
  have hsettled := hlanded.settled hset hsub
  refine ⟨handedOut_nil hsub (by decide), handedOut_nil hsub (by decide), Nat.le_refl _, nofun,
    fun _ => .nil, List.nodup_nil, ?_, ?_, hdefined, ?_, ?_, nofun⟩
  · exact fun k new _ hget => hset.unshared (hsettled.declared k new hget)
  · intro t ht
    have htypes : imageAll l sub (placed.map Prod.snd) = imageAll l sub (placed.map Prod.snd) := rfl
    obtain ⟨s, hs, hlands⟩ := exists_lands_of_declares hlanded htypes ht
    exact ⟨_, hlands.get?_eq hset hsettled (fun _ _ h => h) hs⟩
  · intro source m hm row hrow new hget
    obtain ⟨m', hm', hmem⟩ := ModuleSet.mem_keys.1 (hsettled.declared _ new hget)
    obtain rfl := Option.some.inj (hm.symm.trans hm')
    exact absurd hmem ((hset m (List.mem_of_getElem? hm)).typeRef_ne hrow)
  · intro source m hm r hr new hget
    obtain ⟨m', hm', hmem⟩ := ModuleSet.mem_keys.1 (hsettled.declared _ new hget)
    obtain rfl := Option.some.inj (hm.symm.trans hm')
    exact absurd (List.mem_append_left _ hmem) ((hset m (List.mem_of_getElem? hm)).memberRef_ne hr)

/-! ## The output -/

/-- What is left of a relocation that answers: the shapes of the output's types with the tokens that were
redirected, and the tables before and after all references were bound. -/
structure Carried (l : Linkage) (plan : Plan) (out : Module) (placed : PlacedShapes) (rs : List Redirect)
    (start tables : ImportTables) : Prop where
  landed : Landed l plan l.set.declarations placed rs
  settled : Settled l.set (placed.map Prod.snd) rs start.substitution
  sound : l.set.WellNumbered → ∀ s ∈ withinAll (placed.map Prod.snd), Sound l s
  bound : Bound l plan start tables out.attributes
  types : out.types = imageAll l tables.substitution (placed.map Prod.snd)
  references : out.references = tables.references
  typeRefs : out.typeRefs = tables.typeRefs
  memberRefs : out.memberRefs = tables.memberRefs
  entryPoint : out.entryPoint = l.set.primary.module.entryPoint.map (tables.substitution.counterpart 0)

/-- With tokens that are numbered well, what is filed in a shape is what it has. -/
theorem sound_of_layOut (hset : l.set.WellNumbered) {log log' : Log} {shapes : List Shape}
    {sub : Substitution} {a : Allocator} (h : (layOut l plan).run.run log = (.ok (shapes, sub, a), log')) :
    ∀ s ∈ withinAll shapes, Sound l s := by
  obtain ⟨placed, rs, rfl, hbuilt, -⟩ := layOut_ok hset h
  intro s hs
  obtain ⟨p, hp, hmem⟩ := mem_withinAll_snd.1 hs
  exact hbuilt.sound p hp s hmem

/-- The first pass leaves tables to start from, and what is known of placed shapes. -/
theorem layOut_starts_with (hset : l.set.Identified) {P : PlacedShapes → List Redirect → Prop}
    (hP : Shaping.Settles (l.set.declarations.foldlM (placeDeclaration l plan) []) P) {log log' : Log}
    {shapes : List Shape} {sub : Substitution} {a : Allocator}
    (h : (layOut l plan).run.run log = (.ok (shapes, sub, a), log')) :
    ∃ placed rs, shapes = placed.map Prod.snd ∧ Landed l plan l.set.declarations placed rs ∧ P placed rs ∧
      Settled l.set shapes rs sub ∧ Wired l ⟨sub, a, [], [], []⟩ := by
  have hbuild := buildAll_of_placed ((placeDeclarations_lands l plan).and hP)
  obtain ⟨rs, ⟨placed, rfl, hlanded, hplaced⟩, hsub⟩ := layOut_settles hbuild h
  exact ⟨placed, rs, rfl, hlanded, hplaced, hlanded.settled hset hsub,
    wired_start hset hlanded hsub fun hnumbered _ => known_of_mem_keys hnumbered h⟩

theorem settles_trivial (l : Linkage) (plan : Plan) :
    Shaping.Settles (l.set.declarations.foldlM (placeDeclaration l plan) []) fun _ _ => True :=
  (placeDeclarations_lands l plan).mono fun _ _ _ => trivial

theorem counted_start (sub : Substitution) (a : Allocator) : Counted l 0 0 ⟨sub, a, [], [], []⟩ :=
  fun _ => ⟨Nat.zero_le _, Nat.zero_le _⟩

/-- A relocation that answers, with what is known of placed shapes. -/
theorem run_carries_with (hset : set.Identified) {P : PlacedShapes → List Redirect → Prop}
    (hP : Shaping.Settles (set.declarations.foldlM (placeDeclaration (.ofSet set policy) plan) []) P)
    {log : Log} {out : Module} (h : ((run set plan policy).run.run log).1 = .ok out) :
    ∃ placed rs start tables, Carried (.ofSet set policy) plan out placed rs start tables ∧ P placed rs := by
  obtain ⟨shapes, sub, a, attributes, tables, log', hlayout, himport, hwritten, hentry, hreferences,
    htypeRefs, hmemberRefs, rfl⟩ := run_ok h
  have hset' : (Linkage.ofSet set policy).set.Identified := hset
  obtain ⟨placed, rs, rfl, hlanded, hplaced, hsettled, hwired⟩ := layOut_starts_with hset' hP hlayout
  refine ⟨placed, rs, _, tables, ⟨hlanded, hsettled, fun hnumbered => sound_of_layOut hnumbered hlayout,
    (importAll_ends hset' hwired (counted_start sub a)).of_run himport, (writeAll_ok _ hwritten).1,
    hreferences, htypeRefs, hmemberRefs, ?_⟩, hplaced⟩
  exact (mapM_option_ok (fun _ _ => token_ok (tables.substitution.follows_resolve 0)) hentry).1

theorem run_carries (hset : set.Identified) {log : Log} {out : Module}
    (h : ((run set plan policy).run.run log).1 = .ok out) :
    ∃ placed rs start tables, Carried (.ofSet set policy) plan out placed rs start tables := by
  obtain ⟨placed, rs, start, tables, hcarried, -⟩ :=
    run_carries_with hset (settles_trivial (.ofSet set policy) plan) h
  exact ⟨placed, rs, start, tables, hcarried⟩

namespace Carried

variable {out : Module} {placed : PlacedShapes} {start tables : ImportTables}

theorem kept (h : Carried l plan out placed rs start tables) {k : SourceToken}
    {new : Token} (hk : start.substitution.get? k = some new) : tables.substitution.get? k = some new := by
  obtain ⟨m, hm, -⟩ := ModuleSet.mem_keys.1 (h.settled.declared k new hk)
  exact h.bound.step.known k new (ModuleSet.isInput_of_getElem? hm) hk

theorem allTypes_eq (h : Carried l plan out placed rs start tables) :
    out.allTypes = (withinAll (placed.map Prod.snd)).map (image l tables.substitution) := by
  rw [Module.allTypes, ← TypeDef.withinAll_eq, h.types, withinAll_imageAll]

/-- Every type that an input declares is held by a type of the output, which has the counterpart of its
token. -/
theorem exists_lands (h : Carried l plan out placed rs start tables) (hset : l.set.Identified)
    {t : Sourced TypeDef} (ht : l.set.Declares t) : ∃ s ∈ withinAll (placed.map Prod.snd),
      Lands l plan tables.substitution out.types rs t s ∧
        tables.substitution.get? ⟨t.source, t.value.token⟩ =
          some (s.image l tables.substitution).token := by
  obtain ⟨s, hs, hlands⟩ := exists_lands_of_declares h.landed h.types ht
  exact ⟨s, hs, hlands, hlands.get?_eq hset h.settled (fun _ _ => h.kept) hs⟩

end Carried

/-- Everything in the output that uses tokens is the image of what an input has, under one replacement
of the tokens of each input. -/
structure RewrittenUnder (l : Linkage) (plan : Plan) (s : Nat → Token → Token) (out : Module) : Prop where
  shared : ∀ source t, Substitution.isShared t → s source t = t
  types : ∀ t ∈ out.allTypes, ∃ origin, MadeOf l s t origin
  interfaces : ∀ t ∈ out.allTypes, ∀ i ∈ t.interfaces, ∃ source u, l.set.Declares ⟨source, u⟩ ∧
    ∃ j ∈ u.interfaces, i = s source j
  attributes : ∀ t ∈ out.allTypes, ∀ a ∈ t.attributes, ∃ source u, l.set.Declares ⟨source, u⟩ ∧
    ∃ b ∈ u.attributes, a = b.rename (s source)
  memberRefs : ∀ row ∈ out.memberRefs, ∃ source m, l.set.inputs[source]? = some m ∧ ∃ r ∈ m.memberRefs,
    row.parent = s source r.parent ∧ row.name = r.name ∧ row.signature = r.signature.rename (s source)
  planned : List.Forall₂ (fun p a => l.set.isInput (p.source.number l.set) → ∃ m b,
    l.set.inputs[p.source.number l.set]? = some m ∧ m.attributes[p.index]? = some b ∧
      a = b.rename (s (p.source.number l.set))) plan.attributes out.attributes
  entryPoint : out.entryPoint = l.set.primary.module.entryPoint.map (s 0)

namespace Carried

variable {out : Module} {placed : PlacedShapes} {start tables : ImportTables}

theorem spells_eq {source : Nat} {r row : MemberRef} (h : tables.Spells source r row) :
    row.parent = tables.substitution.counterpart source r.parent ∧ row.name = r.name ∧
      row.signature = r.signature.rename (tables.substitution.counterpart source) := by
  have hfollows := tables.substitution.follows_resolve source
  exact ⟨hfollows _ _ h.parent, h.name, (MemberSig.mapTokens_ok hfollows h.signature).1⟩

theorem rewritten (h : Carried l plan out placed rs start tables) :
    RewrittenUnder l plan tables.substitution.counterpart out := by
  have hdrawn := h.landed.drawn_within
  refine ⟨?_, ?_, ?_, ?_, ?_, ?_, h.entryPoint⟩
  · intro source t hshared
    rw [Substitution.counterpart, if_pos hshared]
  · rw [h.allTypes_eq, List.forall_mem_map]
    exact fun s hs => exists_madeOf (hdrawn s hs)
  · rw [h.allTypes_eq, List.forall_mem_map]
    intro s hs i hi
    rw [interfaces_image] at hi
    obtain ⟨j, hj, rfl⟩ := List.mem_map.1 hi
    obtain ⟨u, hu, hmem⟩ := (hdrawn s hs).interfaces j hj
    exact ⟨j.source, u, hu, j.value, hmem, rfl⟩
  · rw [h.allTypes_eq, List.forall_mem_map]
    intro s hs a ha
    rw [attributes_image] at ha
    obtain ⟨b, hb, rfl⟩ := List.mem_map.1 ha
    obtain ⟨u, hu, hmem⟩ := (hdrawn s hs).attributes b hb
    exact ⟨b.source, u, hu, b.value, hmem, rfl⟩
  · intro row hrow
    rw [h.memberRefs] at hrow
    obtain ⟨source, m, hm, r, hr, -, hspells⟩ := h.bound.wired.spelled row hrow
    exact ⟨source, m, hm, r, hr, spells_eq hspells⟩
  · refine h.bound.attributes.imp fun p a ha hinput => ?_
    obtain ⟨m, b, hm, hb, heq, htype⟩ := ha
    refine ⟨m, b, ModuleSet.getElem?_of_source? hm hinput, hb, heq.trans ?_⟩
    rw [tables.substitution.follows_resolve _ _ _ (htype hinput)]
    rfl

end Carried

end Relocation

/-! ## How a relocation fails

The passes of a relocation fail for want of a place for a type, of a row of a table or of a counterpart.
A relocation answers if its passes do, and if every token that is written has a counterpart by then.
-/

namespace Shape

open Shaping

variable {l : Linkage} {plan : Plan} {shapes : List Shape} {rs : List Redirect}

/-- A substitution fails at a full table, or at a token that is redirected to one without a counterpart. -/
theorem substitution_eq_error {fault : Fault} (h : substitution shapes rs = .error fault) :
    (∃ table, fault = .unbound (.tableFull table) ∧
      Token.maxRow.toNat < ((withinAll shapes).flatMap slots).countP (·.1 == table)) ∨
    ∃ sub a before r after sub',
      (numberAll ((withinAll shapes).flatMap slots)).run.run (.empty, .empty) = (.ok ⟨⟩, (sub, a)) ∧
      rs = before ++ r :: after ∧ before.foldlM applyRedirect sub = .ok sub' ∧
      fault = .unbound (.substitution r.kept.token r.kept.source) ∧ sub'.get? r.kept = none := by
  rw [substitution, allocateAll_eq] at h
  have hends := numberAll_ends ((withinAll shapes).flatMap slots)
  rcases hrun : (numberAll ((withinAll shapes).flatMap slots)).run.run (.empty, .empty) with
    ⟨fault' | _, sub, a⟩
  · rw [hrun] at h
    obtain rfl : fault' = fault := Except.error.inj h
    exact .inl (hends.of_error hrun)
  · rw [hrun] at h
    have hbind : (rs.foldlM applyRedirect sub >>= fun sub' => pure (sub', a)) = .error fault := h
    rcases hredirects : rs.foldlM applyRedirect sub with fault' | sub₁
    · rw [hredirects] at hbind
      obtain rfl : fault' = fault := Except.error.inj hbind
      obtain ⟨before, r, after, sub', hsplit, hbefore, hr⟩ := foldlM_eq_error hredirects
      have hresolve : sub'.resolve r.kept.source r.kept.token = .error fault' := by
        rcases hresolve : sub'.resolve r.kept.source r.kept.token with fault | new
        all_goals
          rw [applyRedirect, hresolve] at hr
        · exact congrArg Except.error (Except.error.inj hr)
        · cases hr
      obtain ⟨hfault, -, hnone⟩ := Substitution.resolve_eq_error hresolve
      exact .inr ⟨sub, a, before, r, after, sub', rfl, hsplit, hbefore, hfault, hnone⟩
    · rw [hredirects] at hbind
      cases hbind

/-- Numbers and then redirects make up a substitution. -/
theorem substitution_of_ok {sub₀ sub : Substitution} {a : Allocator}
    (hnumbered : (numberAll ((withinAll shapes).flatMap slots)).run.run (.empty, .empty) =
      (.ok ⟨⟩, (sub₀, a)))
    (hredirects : rs.foldlM applyRedirect sub₀ = .ok sub) : substitution shapes rs = .ok (sub, a) := by
  rw [substitution, allocateAll_eq, hnumbered]
  exact bind_eq_ok.2 ⟨⟨⟩, rfl, bind_eq_ok.2 ⟨sub, hredirects, rfl⟩⟩

/-- Once shapes are numbered that account for all definitions, every token can be redirected. -/
theorem Accounted.redirects_answer (h : Accounted shapes rs) {sub₀ : Substitution} {a : Allocator}
    (hnumbered : (numberAll ((withinAll shapes).flatMap slots)).run.run (.empty, .empty) =
      (.ok ⟨⟩, (sub₀, a))) : ∃ sub, rs.foldlM applyRedirect sub₀ = .ok sub := by
  rcases hredirects : rs.foldlM applyRedirect sub₀ with fault | sub
  case ok => exact ⟨sub, rfl⟩
  obtain ⟨before, r, after, sub', rfl, hbefore, hr⟩ := foldlM_eq_error hredirects
  -- what is redirected to has its number, and earlier redirects do not touch it
  have hdisjoint := List.disjoint_of_nodup_append h.nodup
  have hearlier : ∀ q ∈ before, q ∈ before ++ r :: after := fun q hq => List.mem_append_left _ hq
  have hdropped {k : SourceToken} (hk : k ∈ keysOf shapes) : k ∉ before.map Redirect.dropped :=
    fun hmem => hdisjoint hk (List.map_subset _ hearlier hmem)
  have hunshared {q : Redirect} (hq : q ∈ before ++ r :: after) : ¬ Substitution.isShared q.kept.token :=
    Substitution.not_isShared (table_mem_definitions h (h.kept q hq).1)
  obtain ⟨hkeep, -⟩ := applyRedirects_ok (fun q hq => hdropped (h.kept q (hearlier q hq)).1)
    (fun q hq => hunshared (hearlier q hq))
    ((List.map_append ▸ h.nodup.of_append_right).of_append_left) hbefore
  have hr' : r ∈ before ++ r :: after := List.mem_append_right _ List.mem_cons_self
  have hkept := (h.kept r hr').1
  have hslot := hkept
  rw [← map_slots] at hslot
  obtain ⟨new, hnew, -⟩ := (numberAll_ok hnumbered).2 _ hslot
  have hget := (hkeep _ (hdropped hkept)).trans hnew
  rw [applyRedirect, Substitution.resolve_of_get? (hunshared hr') hget] at hr
  cases hr

end Shape

namespace Relocation

open Shape Shaping ImportTables Importing

variable {l : Linkage} {set : ModuleSet} {plan : Plan} {policy : Policy} {fails : Fault → Prop}

end Relocation

end ModuleLinker
