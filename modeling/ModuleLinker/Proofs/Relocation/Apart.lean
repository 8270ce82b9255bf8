import ModuleLinker.Proofs.Relocation.Building

namespace ModuleLinker

/-! # Types that stay apart

A type that no other type becomes part of is still scanned for repetitions. Its shape is made of the
first of its members with each key and the first of its interfaces with each name, and the same holds
of the types nested in it.
-/

/-- Whether types nested in the same type, at any depth, have different names. -/
def TypeDef.NamesApart (t : TypeDef) : Prop := ∀ u ∈ t.within, (u.nested.map TypeDef.name).Nodup

namespace Shape

open Shaping

variable {l : Linkage} {source : Nat}

/-- A shape that has taken in the type that it started from and nothing else; the shapes nested in it
are left out. -/
structure Holds (l : Linkage) (source : Nat) (t : TypeDef) (s : Shape) : Prop where
  parts : s.parts.Perm
    ((firsts (Member.key (l.names source)) [] t.members).map (Sourced.mk source))
  interfaces : s.interfaces =
    (firsts (l.names source).name [] t.interfaces).map (Sourced.mk source)
  nested : s.nested.length = t.nested.length
  source : s.source = source
  origin : s.origin = t

/-- The parts of a type, taken into a shape without any. -/
theorem takeParts_holds (hset : l.set.WellNumbered) {t : TypeDef}
    (ht : l.set.Declares ⟨source, t⟩) :
    Yields (takeParts l source t (ofType source t)) fun s _ =>
      SameHead (ofType source t) s ∧ s.nested = [] ∧
      s.parts.Perm ((firsts (Member.key (l.names source)) [] t.members).map (Sourced.mk source)) ∧
      s.interfaces = (firsts (l.names source).name [] t.interfaces).map (Sourced.mk source) := by
  unfold takeParts
  dsimp only
  rw [TypeDef.memberKeys_eq]
  apply (takeMembers_firsts hset ht (fun _ h => h) (ofType source t)).bind
  rintro s _ ⟨hsame, hparts, -⟩
  rcases takeInterfaces_eq source (l.names source) t.interfaces s with ⟨seen, heq⟩
  rw [heq, hsame.interfaces, hsame.interfaceNames]
  apply (takeAttributes_yields l source t.attributes _).mono
  rintro _ _ ⟨⟨kept, rfl⟩, -⟩
  exact ⟨⟨hsame.source, hsame.origin, hsame.name, hsame.flags⟩, hsame.nested, hparts, rfl⟩

mutual

/-- A type that is taken into a shape of its own is held by it, and so is what is nested in it. -/
theorem absorb_holds (hset : l.set.WellNumbered) (t : TypeDef)
    (ht : ∀ u ∈ t.within, l.set.Declares ⟨source, u⟩) (hnames : t.NamesApart) :
    Yields (absorb l source (ofType source t) t) fun s _ =>
      s.name = t.name ∧ List.Forall₂ (Holds l source) t.within s.within := by
  rcases t with ⟨token, namespaceName, name, flags, base, interfaces, genericParams, fields, methods,
    properties, events, nested, attributes⟩
  unfold TypeDef.NamesApart at hnames
  rw [TypeDef.within_eq, List.forall_mem_cons] at ht hnames
  rw [absorb]
  apply (takeParts_holds hset ht.1).bind
  rintro s _ ⟨hhead, hnested, hparts, hinterfaces⟩
  have htypes : ∀ t ∈ nested, ∀ u ∈ t.within, l.set.Declares ⟨source, u⟩ :=
    fun t ht' u hu => ht.2 u (List.mem_flatMap.2 ⟨t, ht', hu⟩)
  have hinner : ∀ t ∈ nested, t.NamesApart :=
    fun t ht' u hu => hnames.2 u (List.mem_flatMap.2 ⟨t, ht', hu⟩)
  rw [hnested]
  apply (absorbNested_holds hset nested htypes hinner hnames.1
    fun _ _ _ hmem => absurd hmem List.not_mem_nil).bind
  rintro _ _ ⟨new, rfl, hlength, hnew⟩
  apply Yields.pure
  constructor
  · exact hhead.name
  · rw [TypeDef.within_eq, within_eq, ← TypeDef.withinAll_eq, ← withinAll_eq]
    exact .cons ⟨hparts, hinterfaces, hlength, hhead.source, hhead.origin⟩ hnew

/-- Nested types of new names get shapes of their own behind those that are there. -/
theorem absorbNested_holds (hset : l.set.WellNumbered) (ts : List TypeDef)
    (hts : ∀ t ∈ ts, ∀ u ∈ t.within, l.set.Declares ⟨source, u⟩)
    (hnames : ∀ t ∈ ts, t.NamesApart) (hnodup : (ts.map TypeDef.name).Nodup) {shapes : List Shape}
    (hnew : ∀ t ∈ ts, ∀ s ∈ shapes, s.name ≠ t.name) :
    Yields (absorbNested l source shapes ts) fun shapes' _ => ∃ new, shapes' = shapes ++ new ∧
      new.length = ts.length ∧
      List.Forall₂ (Holds l source) (TypeDef.withinAll ts) (withinAll new) := by
  cases ts with
  | nil => exact Yields.pure ⟨[], (List.append_nil shapes).symm, rfl, .nil⟩
  | cons t ts =>
    rcases List.forall_mem_cons.1 hts with ⟨ht, hrest⟩
    rcases List.forall_mem_cons.1 hnames with ⟨hname, hnamesRest⟩
    rcases List.forall_mem_cons.1 hnew with ⟨hfresh, hfreshRest⟩
    rw [List.map_cons, List.nodup_cons] at hnodup
    rw [absorbNested]
    split
    case h_1 found index hfind =>
      -- no shape has the name of the type
      have hmem := List.fst_mem_of_mem_zipIdx (List.mem_of_find?_eq_some hfind)
      have hsame := List.find?_some hfind
      exact absurd (by simpa using hsame) (hfresh found hmem)
    case h_2 =>
      apply (absorb_holds hset t ht hname).bind
      rintro s _ ⟨hs, hholds⟩
      have hboth : ∀ u ∈ ts, ∀ v ∈ shapes ++ [s], v.name ≠ u.name := by
        intro u hu v hv
        rcases List.mem_append.1 hv with hold | hlast
        · exact hfreshRest u hu v hold
        · rw [List.mem_singleton.1 hlast, hs]
          intro heq
          exact hnodup.1 (heq ▸ List.mem_map_of_mem hu)
      apply (absorbNested_holds hset ts hrest hnamesRest hnodup.2 hboth).mono
      rintro _ _ ⟨new, rfl, hlength, hnewHolds⟩
      refine ⟨s :: new, ?_, ?_, ?_⟩
      · rw [List.append_assoc]
        rfl
      · rw [List.length_cons, List.length_cons, hlength]
      · rw [TypeDef.withinAll, withinAll]
        exact List.rel_append hholds hnewHolds

end

/-! ## The shapes of types that stay apart -/

/-- Whether a top-level type stays apart: no other one becomes part of it, and none of the types nested
in it becomes part of another one. -/
structure StaysApart (set : ModuleSet) (plan : Plan) (d : Declaration) : Prop where
  alone : ∀ other ∈ set.declarations, plan.placement? other.origin ≠ some (.into d.origin)
  names : d.type.NamesApart

/-- Of the shapes made so far, those of types that stay apart hold these types. -/
def HoldApart (l : Linkage) (plan : Plan) (done : List Declaration) (shapes : PlacedShapes) : Prop :=
  List.Forall₂ (fun d p => p.1 = d.origin ∧ (StaysApart l.set plan d →
    List.Forall₂ (Holds l d.origin.module) d.type.within p.2.within))
    (done.filter fun d => plan.emits d.origin) shapes

variable {plan : Plan}

theorem HoldApart.emit {done : List Declaration} {d : Declaration} {shapes : PlacedShapes}
    (h : HoldApart l plan done shapes) {name : String} {hide : Bool}
    (hplace : plan.placement? d.origin = some (.emit name hide)) {s : Shape}
    (hs : StaysApart l.set plan d → List.Forall₂ (Holds l d.origin.module) d.type.within s.within)
    (flags : TypeFlags) :
    HoldApart l plan (done ++ [d]) (shapes ++ [(d.origin, { s with name, flags })]) := by
  have hemits : plan.emits d.origin := by
    rw [Plan.emits, hplace]
  unfold HoldApart
  rw [List.filter_append, List.filter_cons, if_pos hemits, List.filter_nil]
  apply List.rel_append h
  refine .cons ⟨rfl, fun hapart => ?_⟩ .nil
  have hholds := hs hapart
  rw [TypeDef.within_eq, within_eq] at hholds ⊢
  rcases hholds with _ | ⟨hself, hnested⟩
  exact .cons ⟨hself.parts, hself.interfaces, hself.nested, hself.source, hself.origin⟩ hnested

/-- A type that becomes part of another one leaves those alone that stay apart. -/
theorem HoldApart.into {done : List Declaration} {d : Declaration} {shapes : PlacedShapes}
    (h : HoldApart l plan done shapes) (hd : d ∈ l.set.declarations) {target : Origin}
    (hplace : plan.placement? d.origin = some (.into target)) (new : Shape) :
    HoldApart l plan (done ++ [d]) (update target new shapes) := by
  have hemits : ¬ plan.emits d.origin := by
    rw [Plan.emits, hplace]
    exact Bool.false_ne_true
  unfold HoldApart update
  rw [List.filter_append, List.filter_cons, if_neg hemits, List.filter_nil, List.append_nil,
    List.forall₂_map_right_iff]
  apply List.Forall₂.imp _ h
  rintro e ⟨origin, s⟩ ⟨rfl, hholds⟩
  refine ⟨rfl, fun hapart => ?_⟩
  -- the one that is replaced does not stay apart
  have hne : e.origin ≠ target := by
    rintro rfl
    exact hapart.alone d hd hplace
  dsimp only
  rw [if_neg hne]
  exact hholds hapart

theorem placeDeclaration_apart (hset : l.set.WellNumbered) {done : List Declaration}
    {d : Declaration} (hd : d ∈ l.set.declarations) {shapes : PlacedShapes}
    {redirects : List Redirect} (hbuilt : Built l plan done shapes redirects)
    (h : HoldApart l plan done shapes) :
    Settles (placeDeclaration l plan shapes d) fun shapes' _ =>
      HoldApart l plan (done ++ [d]) shapes' := by
  have htypes : ∀ u ∈ d.type.within, l.set.Declares ⟨d.origin.module, u⟩ :=
    fun u hu => ModuleSet.declares_of_mem_declarations hd hu
  unfold placeDeclaration
  dsimp only
  split
  case h_1 => exact Settles.throw _
  case h_2 name hide hplace =>
    have hholds : Yields (absorb l d.origin.module (.ofType d.origin.module d.type) d.type) fun s _ =>
        StaysApart l.set plan d →
          List.Forall₂ (Holds l d.origin.module) d.type.within s.within := by
      -- names that are not apart may fold nested types, and then nothing is said
      by_cases hapart : StaysApart l.set plan d
      · apply (absorb_holds hset d.type htypes hapart.names).mono
        rintro s _ ⟨-, hs⟩ -
        exact hs
      · apply (absorb_yields hset d.type htypes (sound_ofType (htypes _ d.type.self_mem_within))).mono
        intro _ _ _ hcontra
        exact absurd hcontra hapart
    apply (Settles.lift hholds).bind
    intro s _ hs
    exact Settles.pure (h.emit hplace hs _)
  case h_3 target hplace =>
    split
    case h_1 => exact Settles.throw _
    case h_2 s hlookup =>
      rcases List.lookup_eq_some_iff.1 hlookup with ⟨before, after, hmiddle, -⟩
      have hs := hbuilt.sound (target, s) (by simp [hmiddle])
      apply (Settles.lift (Yields.redirect _ _)).bind
      intro _ _ _
      apply (Settles.lift (absorb_yields hset d.type htypes hs)).bind
      intro s' _ _
      exact Settles.pure (h.into hd hplace s')

/-- The shapes of types that stay apart hold these types. -/
theorem buildAll_apart (hset : l.set.WellNumbered) (plan : Plan) :
    Settles (buildAll l plan) fun shapes _ =>
      List.Forall₂ (fun d s => StaysApart l.set plan d →
        List.Forall₂ (Holds l d.origin.module) d.type.within s.within) (l.set.emitted plan) shapes := by
  have hkeeps := buildAll_keeps hset plan (P := HoldApart l plan) .nil
    fun _ hd hbuilt h => placeDeclaration_apart hset hd hbuilt h
  apply hkeeps.mono
  rintro _ _ ⟨placed, rfl, -, happart⟩
  rw [List.forall₂_map_right_iff]
  exact happart.imp fun _ _ h => h.2

end Shape

end ModuleLinker
