import ModuleLinker.Proofs.Plan.Placement
import ModuleLinker.Proofs.Plan.Primary
import ModuleLinker.Proofs.Relocation.Visibility

namespace ModuleLinker

/-! # Types of the primary module and nested types

What becomes of the public types of the primary module, and of the types nested in a type of the output.
-/

/-! ## What the primary module offers

A public type of the primary module stays what it is, whatever the other inputs declare and whatever the
policy hides or joins: its name is claimed by it first, and nothing that is hidden is of its module.
-/

namespace ModuleSet

variable {set : ModuleSet}

theorem mem_declarations_primary {d : Declaration} :
    d ∈ set.declarations ∧ d.origin.module = 0 ↔ d ∈ declarationsOf set.primary.module 0 := by
  rw [mem_declarations_iff]
  constructor
  · rintro ⟨⟨m, hm, hd⟩, hmodule⟩
    rw [hmodule] at hm hd
    obtain rfl : set.primary.module = m := Option.some.inj hm
    exact hd
  · intro hd
    obtain ⟨j, type, -, rfl⟩ := mem_declarationsOf.1 hd
    exact ⟨⟨_, rfl, hd⟩, rfl⟩

/-- A name that occurs once in the primary module is that of one declaration of it. -/
theorem eq_of_count_eq_one {name : String}
    (hsole : (set.primary.module.types.map TypeDef.qualifiedName).count name = 1) {d e : Declaration}
    (hd : d ∈ declarationsOf set.primary.module 0) (he : e ∈ declarationsOf set.primary.module 0)
    (hdname : d.name = name) (hename : e.name = name) : d = e := by
  rw [← map_name_declarationsOf _ 0, List.count, List.countP_map, List.countP_eq_length_filter,
    List.length_eq_one_iff] at hsole
  obtain ⟨a, ha⟩ := hsole
  have hmem : ∀ x ∈ declarationsOf set.primary.module 0, x.name = name → x = a := by
    intro x hx hname
    have hfilter : x ∈ [a] := ha ▸ List.mem_filter.2 ⟨hx, by simp [hname]⟩
    exact List.mem_singleton.1 hfilter
  rw [hmem d hd hdname, hmem e he hename]

end ModuleSet

namespace Plan

open ModuleSet

variable {set : ModuleSet} {plan : Plan} {p : Policy} {log : Log}

/-- A type of the primary module with a name of its own there becomes no part of another type: it would
have to be an earlier one. -/
theorem Places.not_into_primary (h : plan.Places set) {d : Declaration}
    (hd : d ∈ declarationsOf set.primary.module 0)
    (hsole : (set.primary.module.types.map TypeDef.qualifiedName).count d.name = 1) (target : Origin) :
    plan.placement? d.origin ≠ some (.into target) := by
  intro hplace
  obtain ⟨hmem, hmodule⟩ := mem_declarations_primary.2 hd
  obtain ⟨first, hfirst, rfl, -, hname, hbefore⟩ := h.joined d hmem target hplace
  have hprimary : first.origin.module = 0 := by
    rw [Origin.Before, hmodule] at hbefore
    omega
  have hsame : first = d :=
    eq_of_count_eq_one hsole (mem_declarations_primary.1 ⟨hfirst, hprimary⟩) hd hname rfl
  exact hbefore.ne (congrArg Declaration.origin hsame)

/-- A public type of the primary module with a name of its own there keeps its place, its name and its
visibility. -/
theorem placement_primary (h : ((build set (.ofSet set) p).run.run log).1 = .ok plan) {d : Declaration}
    (hd : d ∈ declarationsOf set.primary.module 0) (hpublic : d.type.flags.isPublic)
    (hsole : (set.primary.module.types.map TypeDef.qualifiedName).count d.name = 1) :
    plan.placement? d.origin = some (.emit d.type.name false) := by
  obtain ⟨hmem, hmodule⟩ := mem_declarations_primary.2 hd
  have hplaces := places_of_build h
  obtain ⟨placement, hplace⟩ := hplaces.exists_placement hmem
  cases placement with
  | into target => exact absurd hplace (hplaces.not_into_primary hd hsole target)
  | emit name hide =>
    -- nothing of the primary module is hidden
    have hselects : ¬ p.selects d := by
      simp [Policy.selects, hmodule]
    obtain ⟨hshown, rfl⟩ := (build_exposed_iff h hmem hplace).2 ⟨hpublic, hselects⟩
    cases hide with
    | false => exact hplace
    | true =>
      rw [if_pos rfl, TypeFlags.isPublic_withVisibility_notPublic] at hshown
      cases hshown

end Plan

namespace Relocation

variable {set : ModuleSet} {plan : Plan} {p : Policy} {log log' : Log} {out : Module}

/-- `u` is a type of input `i` with its tokens replaced, as far as its own description goes. -/
structure Keeps (s : Nat → Token → Token) (i : Nat) (t u : TypeDef) : Prop where
  token : u.token = s i t.token
  namespaceName : u.namespaceName = t.namespaceName
  name : u.name = t.name
  flags : u.flags = t.flags
  kind : u.isInterface = t.isInterface
  base : u.base = t.base.map (s i)
  genericParams : u.genericParams = t.genericParams

theorem Keeps.qualifiedName {s : Nat → Token → Token} {i : Nat} {t u : TypeDef} (h : Keeps s i t u) :
    u.qualifiedName = t.qualifiedName := by
  rw [TypeDef.qualifiedName, h.namespaceName, h.name]
  rfl

/-- What is written for a type that keeps its name and visibility. -/
theorem keeps_image {l : Linkage} {sub : Substitution} {d : Declaration} {s : Shape}
    (h : Shape.StandsFor plan d s)
    (hplace : plan.placement? d.origin = some (.emit d.type.name false)) :
    Keeps sub.counterpart d.origin.module d.type (s.image l sub) := by
  rcases s with ⟨source, origin, name, flags, fields, methods, properties, events, interfaces,
    attributes, nested, members, interfaceNames⟩
  obtain ⟨hsource, horigin, name', hide, hplace', hname, hflags⟩ := h
  dsimp only at hsource horigin hname hflags
  obtain ⟨rfl, rfl⟩ := Placement.emit.inj (Option.some.inj (hplace.symm.trans hplace'))
  subst hsource horigin hname
  rw [if_neg Bool.false_ne_true] at hflags
  subst hflags
  exact ⟨rfl, rfl, rfl, rfl, rfl, rfl, rfl⟩

theorem EmittedAs.outputName? {s : Nat → Token → Token} {d : Declaration} {t : TypeDef}
    (h : EmittedAs plan s d t) : plan.outputName? d = some t.qualifiedName := by
  obtain ⟨name, hide, hplace, rfl, -⟩ := h.placed
  rw [Plan.outputName?, hplace, TypeDef.qualifiedName, h.namespaceName]

/-- The top-level types of the output differ in their names. -/
theorem nodup_qualifiedNames (hplaces : plan.Places set) {s : Nat → Token → Token}
    {types : List TypeDef} (h : List.Forall₂ (EmittedAs plan s) (set.emitted plan) types) :
    (types.map TypeDef.qualifiedName).Nodup := by
  have hnames : (set.emitted plan).map plan.outputName? =
      types.map (some ∘ TypeDef.qualifiedName) := by
    rw [← List.forall₂_eq_eq_eq, List.forall₂_map_left_iff, List.forall₂_map_right_iff]
    exact h.imp fun _ _ hemitted => hemitted.outputName?
  refine List.Nodup.of_map some ?_
  rw [List.map_map, ← hnames]
  refine (set.nodup_declarations.filter _).map_on fun d hd e he heq => ?_
  obtain ⟨hdmem, hemits⟩ := List.mem_filter.1 hd
  obtain ⟨name, hname⟩ := Plan.exists_outputName? hemits
  exact hplaces.distinct d hdmem e (List.mem_filter.1 he).1 name hname (heq ▸ hname)

/-- Every public type of the primary module whose name occurs once there stays what it is, under one
replacement of the tokens of each input, of which the output's types are images: it is the only type of
its name, it is as visible as it was, and no new name of it is listed. -/
theorem run_keeps_primary (hplan : ((Plan.build set (.ofSet set) p).run.run log).1 = .ok plan)
    (hrun : ((run set plan p).run.run log').1 = .ok out) :
    ∃ s : Nat → Token → Token,
      (∀ source t, Substitution.isShared t → s source t = t) ∧
      (∀ t ∈ out.allTypes, ∃ origin, MadeOf (.ofSet set p) s t origin) ∧
      ∀ t ∈ set.primary.module.types, t.flags.isPublic →
        (set.primary.module.types.map TypeDef.qualifiedName).count t.qualifiedName = 1 →
        ∃ u, out.types.filter (fun v => v.qualifiedName == t.qualifiedName) = [u] ∧
          u.flags.isPublic ∧ Keeps s 0 t u ∧ ∀ new, (t.qualifiedName, new) ∉ plan.renamesOf 0 := by
  obtain ⟨shapes, sub, a, attributes, tables, log₁, hlayout, -, hwritten, -⟩ := run_ok hrun
  obtain ⟨rs, ⟨placed, rfl, hlanded⟩, -⟩ :=
    layOut_settles (Shape.buildAll_lands (.ofSet set p) plan) hlayout
  have htypes := (Shape.writeAll_ok _ hwritten).1
  have hemitted : List.Forall₂ (EmittedAs plan tables.substitution.counterpart) (set.emitted plan)
      out.types := by
    rw [htypes, Shape.imageAll_eq, List.map_map, List.forall₂_map_right_iff]
    exact hlanded.heads.imp fun _ _ h => emittedAs_image h.2
  have hnodup := nodup_qualifiedNames (Plan.places_of_build hplan) hemitted
  refine ⟨tables.substitution.counterpart, ?_, ?_, ?_⟩
  · intro source t hshared
    rw [Substitution.counterpart, if_pos hshared]
  · intro t ht
    rw [allTypes_eq hwritten] at ht
    obtain ⟨s, hs, rfl⟩ := List.mem_map.1 ht
    exact exists_madeOf (hlanded.drawn_within s hs)
  · intro t ht hpublic hsole
    obtain ⟨i, hi⟩ := List.mem_iff_getElem?.1 ht
    have hd : ⟨⟨0, i⟩, set.primary.module, t⟩ ∈ ModuleSet.declarationsOf set.primary.module 0 :=
      ModuleSet.mem_declarationsOf.2 ⟨i, t, hi, rfl⟩
    have hmem := (ModuleSet.mem_declarations_primary.2 hd).1
    have hplace := Plan.placement_primary hplan hd hpublic hsole
    -- the shape that the type has gone into is its own
    obtain ⟨q, hq, hgoes, -⟩ := hlanded.held _ hmem
    obtain ⟨first, hzip, horigin, hstands⟩ := exists_mem_zip hlanded htypes hq
    have hself : first.origin = ⟨0, i⟩ := by
      rcases hgoes with heq | hinto
      · rw [← horigin, ← heq]
      · cases hinto.symm.trans hplace
    obtain ⟨hfirst, hu⟩ := List.of_mem_zip hzip
    obtain rfl := ModuleSet.eq_of_origin_eq (List.mem_filter.1 hfirst).1 hmem hself
    have hkeeps : Keeps tables.substitution.counterpart 0 t
        (q.2.image (.ofSet set p) tables.substitution) := keeps_image hstands hplace
    refine ⟨_, hkeeps.qualifiedName ▸ filter_key_eq hu hnodup, ?_, hkeeps, ?_⟩
    · rw [hkeeps.flags]
      exact hpublic
    · intro new hlisted
      obtain ⟨e, he, hmodule, hname, houtput, hne⟩ := (Plan.mem_renamesOf hplan).1 hlisted
      have heprimary := ModuleSet.mem_declarations_primary.1 ⟨he, hmodule⟩
      obtain rfl := ModuleSet.eq_of_count_eq_one hsole heprimary hd hname rfl
      rw [Plan.outputName?, hplace] at houtput
      exact hne (Option.some.inj houtput).symm

/-- The class of the first module stays public, with the one of the hidden module as a part of it. -/
theorem run_keeps_primary_boxes : ∃ out s u,
    ((Plan.build boxes (.ofSet boxes) hidingPolicy).run.run []).1 = .ok boxPlan ∧
    ((run boxes boxPlan hidingPolicy).run.run []).1 = .ok out ∧
    out.types.filter (fun v => v.qualifiedName == "N.Box") = [u] ∧ u.flags.isPublic ∧
    Keeps s 0 (boxType ⟨0x01000001⟩) u := by
  have hplan : ((Plan.build boxes (.ofSet boxes) hidingPolicy).run.run []).1 = .ok boxPlan := by
    decide +kernel
  have hok : ((run boxes boxPlan hidingPolicy).run.run []).1.isOk := by decide +kernel
  obtain ⟨out, hrun⟩ := exists_eq_ok hok
  obtain ⟨s, -, -, hkeeps⟩ := run_keeps_primary hplan hrun
  obtain ⟨u, hu, hpublic, hkept, -⟩ :=
    hkeeps (boxType ⟨0x01000001⟩) List.mem_cons_self (by decide) (by decide)
  exact ⟨out, s, u, hplan, hrun, hu, hpublic, hkept⟩

end Relocation

/-! ## Types nested in types of the output

A type of the output has, for each name of a type nested in one of those that went into it, one nested
type, and this is what the first of that name is: no plan renames or hides a nested type. What is nested
in it comes in the same way from all nested types of the name.
-/

namespace Relocation

open Shape Shaping

variable {l : Linkage} {sub : Substitution} {source : Nat} {s : Nat → Token → Token}

/-- The types nested in a type of the output are those of the first nested types of each name. -/
inductive NestsFrom (s : Nat → Token → Token) : List (Sourced TypeDef) → TypeDef → Prop
  | mk {ts : List (Sourced TypeDef)} {t : TypeDef}
      (heads : List.Forall₂ (fun u w => Keeps s u.source u.value w)
        (firsts (·.value.name) [] (nestedOf ts)) t.nested)
      (nested : ∀ w ∈ t.nested, NestsFrom s (named w.name (nestedOf ts)) w) : NestsFrom s ts t

/-- Types are those of the first types of each name. -/
structure AllFrom (s : Nat → Token → Token) (ns : List (Sourced TypeDef)) (types : List TypeDef) :
    Prop where
  heads : List.Forall₂ (fun u w => Keeps s u.source u.value w) (firsts (·.value.name) [] ns) types
  each : ∀ w ∈ types, NestsFrom s (named w.name ns) w

theorem nestsFrom_iff {ts : List (Sourced TypeDef)} {t : TypeDef} : NestsFrom s ts t ↔ AllFrom s (nestedOf ts) t.nested :=
  ⟨fun ⟨heads, nested⟩ => ⟨heads, nested⟩, fun ⟨heads, each⟩ => ⟨heads, each⟩⟩

namespace AllFrom

variable {ns : List (Sourced TypeDef)} {types : List TypeDef}

theorem map_name (h : AllFrom s ns types) :
    types.map TypeDef.name = (firsts (·.value.name) [] ns).map (·.value.name) := by
  rw [← List.forall₂_eq_eq_eq, List.forall₂_map_left_iff, List.forall₂_map_right_iff]
  exact h.heads.flip.imp fun _ _ hkeeps => hkeeps.name

theorem nodup_names (h : AllFrom s ns types) : (types.map TypeDef.name).Nodup := by
  rw [h.map_name]
  exact (nodup_map_firsts _ [] ns).1

theorem mem_names (h : AllFrom s ns types) {u : Sourced TypeDef} (hu : u ∈ ns) :
    u.value.name ∈ types.map TypeDef.name := by
  obtain ⟨v, hv, hname⟩ : ∃ v ∈ firsts (·.value.name) [] ns, v.value.name = u.value.name :=
    exists_mem_firsts hu List.not_mem_nil
  rw [h.map_name, ← hname]
  exact List.mem_map_of_mem hv

/-- A further type of a name adds to what is nested in the type that is there. -/
theorem replace {before after : List TypeDef} {found found' : TypeDef} {t : Sourced TypeDef}
    (h : AllFrom s ns (before ++ found :: after)) (ht : t.value.name = found.name)
    (hhead : ∀ u : Sourced TypeDef, Keeps s u.source u.value found → Keeps s u.source u.value found')
    (hname : found'.name = found.name) (hfound : NestsFrom s (named found.name ns ++ [t]) found') :
    AllFrom s (ns ++ [t]) (before ++ found' :: after) := by
  refine ⟨?_, forall_named_replace h.nodup_names h.each ht hname hfound⟩
  have hseen : ∀ u ∈ [t], u.value.name ∈ ns.map (·.value.name) := by
    have hmem : found.name ∈ (before ++ found :: after).map TypeDef.name :=
      List.mem_map_of_mem (List.mem_append_right _ List.mem_cons_self)
    rw [h.map_name] at hmem
    rw [List.forall_mem_singleton, ht]
    exact ((firsts_sublist _ [] ns).map _).subset hmem
  rw [firsts_append_of_mem hseen]
  exact Shape.forall₂_replace h.heads hhead

/-- A type of a new name is there as it is. -/
theorem append {w : TypeDef} {t : Sourced TypeDef} (h : AllFrom s ns types)
    (hnew : ∀ v ∈ types, v.name ≠ t.value.name) (hhead : Keeps s t.source t.value w)
    (hw : NestsFrom s [t] w) : AllFrom s (ns ++ [t]) (types ++ [w]) := by
  have hfresh : ∀ u ∈ ns, u.value.name ≠ t.value.name := by
    intro u hu heq
    obtain ⟨v, hv, hname⟩ := List.mem_map.1 (h.mem_names hu)
    exact hnew v hv (hname.trans heq)
  refine ⟨?_, forall_named_append h.each hnew hfresh hhead.name hw⟩
  have hunseen : t.value.name ∉ [] ++ ns.map (·.value.name) := by
    intro hmem
    obtain ⟨u, hu, heq⟩ := List.mem_map.1 hmem
    exact hfresh u hu heq
  rw [firsts_append_singleton, if_neg hunseen]
  exact List.rel_append h.heads (.cons hhead .nil)

end AllFrom

/-! ## Shapes that take in types -/

/-- What the image of a shape is without its contents is known from the type it started from. -/
theorem Keeps.of_sameHead {i : Nat} {t : TypeDef} {a b : Shape} (h : Keeps s i t (a.image l sub))
    (hhead : SameHead a b) : Keeps s i t (b.image l sub) := by
  obtain ⟨hsource, horigin, hname, hflags⟩ := hhead
  cases a
  cases b
  dsimp only at hsource horigin hname hflags
  subst hsource horigin hname hflags
  exact ⟨h.token, h.namespaceName, h.name, h.flags, h.kind, h.base, h.genericParams⟩

theorem keeps_ofType (t : TypeDef) :
    Keeps sub.counterpart source t ((ofType source t).image l sub) :=
  ⟨rfl, rfl, rfl, rfl, rfl, rfl, rfl⟩

theorem nestsFrom_ofType (t : TypeDef) :
    NestsFrom s [] ((ofType source t).image l sub) := by
  rw [nestsFrom_iff, nested_image]
  exact ⟨.nil, nofun⟩

/-- The members of a type change neither what the shape started from nor its nested shapes and attributes. -/
theorem takeMembers_keep_rest (source : Nat) (t : TypeDef) (ps : List (MemberKey × Token)) (a : Shape) :
    Yields (ps.foldlM (takeMember source t) a) fun b _ =>
      SameHead a b ∧ b.nested = a.nested ∧ b.attributes = a.attributes := by
  have hmember (a : Shape) (p : MemberKey × Token) :
      Yields (takeMember source t a p) fun b _ =>
        SameHead a b ∧ b.nested = a.nested ∧ b.attributes = a.attributes := by
    unfold takeMember
    dsimp only
    split
    · refine (Yields.redirect _ _).bind fun _ _ _ => ?_
      exact Yields.pure ⟨⟨rfl, rfl, rfl, rfl⟩, rfl, rfl⟩
    · have hfiled := filedOne_addMember source t p.1 p.2 a
      exact Yields.pure ⟨hfiled.toSameHead, hfiled.nested, hfiled.attributes⟩
  refine Yields.foldlM (motive := fun _ b _ =>
    SameHead a b ∧ b.nested = a.nested ∧ b.attributes = a.attributes) ⟨⟨rfl, rfl, rfl, rfl⟩, rfl, rfl⟩ ?_
  rintro done p - b _ ⟨hhead, hnested, hattributes⟩
  refine (hmember b p).mono ?_
  exact fun c _ hc => ⟨hhead.trans hc.1, hc.2.1.trans hnested, hc.2.2.trans hattributes⟩

/-- The parts of a type change neither what the shape started from nor what is nested in it. -/
theorem takeParts_keeps (l : Linkage) (source : Nat) (t : TypeDef) (a : Shape) :
    Yields (takeParts l source t a) fun b _ => SameHead a b ∧ b.nested = a.nested := by
  unfold takeParts
  refine (takeMembers_keep_rest source t _ a).bind ?_
  rintro b _ ⟨hhead, hnested, -⟩
  obtain ⟨seen, heq⟩ := takeInterfaces_eq source (l.names source) t.interfaces b
  dsimp only
  rw [heq]
  refine (takeAttributes_draw l source t.attributes _).mono ?_
  rintro _ _ ⟨⟨more, -, rfl⟩, -⟩
  exact ⟨⟨hhead.source, hhead.origin, hhead.name, hhead.flags⟩, hnested⟩

mutual

theorem absorb_nests (t : TypeDef) {ts : List (Sourced TypeDef)} {a : Shape}
    (h : NestsFrom sub.counterpart ts (a.image l sub)) :
    Yields (absorb l source a t) fun b _ =>
      SameHead a b ∧ NestsFrom sub.counterpart (ts ++ [⟨source, t⟩]) (b.image l sub) := by
  rcases t with ⟨token, namespaceName, name, flags, base, interfaces, genericParams, fields, methods,
    properties, events, nested, attributes⟩
  rw [absorb]
  refine (takeParts_keeps l source _ a).bind ?_
  rintro b _ ⟨hhead, hnested⟩
  rw [nestsFrom_iff, nested_image, ← hnested] at h
  refine (absorbNested_nests nested h).bind ?_
  intro inner _ hinner
  refine Yields.pure ⟨⟨hhead.source, hhead.origin, hhead.name, hhead.flags⟩, ?_⟩
  rw [nestsFrom_iff, nested_image, nestedOf_append_singleton]
  exact hinner

theorem absorbNested_nests (us : List TypeDef) {ns : List (Sourced TypeDef)} {shapes : List Shape}
    (h : AllFrom sub.counterpart ns (shapes.map (image l sub))) :
    Yields (absorbNested l source shapes us) fun shapes' _ =>
      AllFrom sub.counterpart (ns ++ us.map (Sourced.mk source)) (shapes'.map (image l sub)) := by
  cases us with
  | nil =>
    refine Yields.pure ?_
    rw [List.map_nil, List.append_nil]
    exact h
  | cons t us =>
    have hmiddle : ns ++ (t :: us).map (Sourced.mk source) =
        ns ++ [⟨source, t⟩] ++ us.map (Sourced.mk source) := by
      rw [List.map_cons, List.append_assoc]
      rfl
    rw [absorbNested, hmiddle]
    split
    case h_1 found index hfind =>
      obtain ⟨before, after, rfl, hname, hset⟩ := eq_append_of_find? hfind
      rw [List.map_append, List.map_cons] at h
      refine (Yields.redirect _ _).bind fun _ _ _ => ?_
      have hfound := h.each _ (List.mem_append_right _ List.mem_cons_self)
      refine (absorb_nests t hfound).bind ?_
      rintro found' _ ⟨hhead, hfound'⟩
      refine (absorbNested_nests us ?_).mono fun _ _ hrest => hrest
      rw [hset, List.map_append, List.map_cons]
      refine h.replace ?_ (fun u hu => hu.of_sameHead hhead) ?_ hfound'
      · rw [name_image, hname]
      · rw [name_image, name_image, hhead.name]
    case h_2 hfind =>
      refine (absorb_nests t (nestsFrom_ofType t)).bind ?_
      rintro a _ ⟨hhead, ha⟩
      refine (absorbNested_nests us ?_).mono fun _ _ hrest => hrest
      rw [List.map_append]
      refine h.append ?_ ((keeps_ofType t).of_sameHead hhead) ha
      rw [List.forall_mem_map]
      intro n hn
      rw [name_image]
      exact forall_ne_of_find? hfind n hn

end

/-! ## Types of the output -/

theorem nestsFrom_accumulates (l : Linkage) (sub : Substitution) :
    Accumulates l fun ts a => NestsFrom sub.counterpart ts (a.image l sub) := by
  constructor
  · exact fun source t => nestsFrom_ofType t
  · intro ts a h name flags
    rw [nestsFrom_iff, nested_image] at h ⊢
    exact h
  · exact fun d _ ts a h => (absorb_nests d.type h).mono fun _ _ hb => hb.2

variable {set : ModuleSet} {plan : Plan} {p : Policy} {log : Log} {out : Module}

/-- Every top-level type of the output is written for a shape, which has what accumulates in shapes of all the
types that went into it. -/
theorem run_accumulates (hrun : ((run set plan p).run.run log).1 = .ok out) : ∃ sub : Substitution,
    ∀ P, Accumulates (.ofSet set p) P → List.Forall₂ (fun d t => EmittedAs plan sub.counterpart d t ∧
      ∃ a : Shape, t = a.image (.ofSet set p) sub ∧ P (contributors plan set.declarations d.origin) a)
        (set.emitted plan) out.types := by
  obtain ⟨shapes, sub, a, attributes, tables, log₁, hlayout, -, hwritten, -⟩ := run_ok hrun
  refine ⟨tables.substitution, ?_⟩
  intro P hP
  have hbuild := buildAll_of_placed ((placeDeclarations_lands (.ofSet set p) plan).and
    (placeDeclarations_accumulate hP plan))
  obtain ⟨rs, ⟨placed, rfl, hlanded, haccumulated⟩, -⟩ := layOut_settles hbuild hlayout
  rw [(Shape.writeAll_ok _ hwritten).1, Shape.imageAll_eq, List.map_map, List.forall₂_map_right_iff]
  obtain ⟨hlength, hheads⟩ := List.forall₂_iff_zip.1 hlanded.heads
  refine List.forall₂_iff_zip.2 ⟨hlength, ?_⟩
  intro d q hmem
  obtain ⟨horigin, hstands⟩ := hheads hmem
  have hq := haccumulated.each q (List.of_mem_zip hmem).2
  rw [horigin] at hq
  exact ⟨emittedAs_image hstands, q.2, rfl, hq⟩

/-- The types of the output, with what is nested in them. -/
theorem run_nests (hrun : ((run set plan p).run.run log).1 = .ok out) :
    ∃ s, List.Forall₂ (fun d t => EmittedAs plan s d t ∧
      NestsFrom s (contributors plan set.declarations d.origin) t) (set.emitted plan) out.types := by
  obtain ⟨sub, hall⟩ := run_accumulates hrun
  refine ⟨sub.counterpart, (hall _ (nestsFrom_accumulates (.ofSet set p) sub)).imp ?_⟩
  rintro d _ ⟨hemitted, a, rfl, hnests⟩
  exact ⟨hemitted, hnests⟩

end Relocation

end ModuleLinker
