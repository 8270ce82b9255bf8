import ModuleLinker.Proofs.Plan.Contents
import ModuleLinker.Proofs.Relocation.Replaying
import ModuleLinker.Proofs.Relocation.SameShapes

namespace ModuleLinker

/-! # Relocating a module with a copy of it

If each type of a module can become one with itself, then a copy of the module adds nothing: its types
leave the shapes of the module as they are, its references find their rows, and its attributes and
resources are those that are kept anyway.
-/

namespace Relocation

open Shape Importing

section

variable {m : LoadedModule} {path : Path} {name : String} {p : Policy} {plan plan' : Plan}

/-! ## The setting -/

/-- A module with a copy of it under another name. -/
abbrev doubled (m : LoadedModule) (path : Path) (name : String) : ModuleSet :=
  .pair m ⟨path, m.module.called name⟩

/-- The module and its copy have the same names for types. -/
theorem names_doubled {i : Nat} (hi : i = 0 ∨ i = 1) :
    (Linkage.ofSet (doubled m path name) p).names i = (Linkage.ofSet (.alone m) p).names 0 := by
  rcases hi with rfl | rfl
  · rfl
  · exact m.module.ofModule_called name

theorem repeats_doubled :
    NamedAttribute.repeats (doubled m path name) p = NamedAttribute.repeats (.alone m) p := by
  funext fullName
  have hone : (ModuleSet.alone m).all = [m.module] := rfl
  have htwo : (doubled m path name).all = [m.module, m.module.called name] := rfl
  unfold NamedAttribute.repeats NamedAttribute.isRepeatable
  rw [hone, htwo, List.findSome?_cons, List.findSome?_cons, List.findSome?_cons, Module.attributeUsage?_called]
  rcases m.module.attributeUsage? fullName with _ | usage <;> rfl

theorem getElem?_doubled {i : Nat} (hi : i = 0 ∨ i = 1) :
    ∃ other, (doubled m path name).inputs[i]? = some (m.module.called other) := by
  rcases hi with rfl | rfl
  · exact ⟨m.module.name, rfl⟩
  · exact ⟨name, rfl⟩

theorem twin_doubled (hm : m.module.Identified) (hunknown : ∀ r ∈ m.module.references, r.name ≠ name)
    {j : Nat} (hj : j = 0 ∨ j = 1) :
    Twin (.ofSet (.alone m) p) (.ofSet (doubled m path name) p) m.module j := by
  have hnumber {i : Nat} (hi : i = 0 ∨ i = j) : i = 0 ∨ i = 1 := by
    rcases hi with rfl | rfl
    · exact .inl rfl
    · exact hj
  refine ⟨rfl, fun i hi => getElem?_doubled (hnumber hi), fun i hi => names_doubled (hnumber hi), ?_, hm⟩
  intro r hr
  have hcopy : ((m.module.called name).name == r.name) = false := beq_false_of_ne (hunknown r hr).symm
  have hone : (Linkage.ofSet (.alone m) p).set.inputs = [m.module] := rfl
  have htwo : (Linkage.ofSet (doubled m path name) p).set.inputs = [m.module, m.module.called name] := rfl
  rw [ModuleSet.inputIndex?, ModuleSet.inputIndex?, hone, htwo]
  simp [List.findIdx?_cons, hcopy]

theorem wellNumbered_alone (hm : m.module.WellNumbered) : (ModuleSet.alone m).WellNumbered :=
  fun _ h => List.mem_singleton.1 h ▸ hm

theorem wellNumbered_doubled (hm : m.module.WellNumbered) : (doubled m path name).WellNumbered := by
  intro module hmodule
  rcases List.mem_cons.1 hmodule with rfl | hcopy
  · exact hm
  · obtain rfl := List.mem_singleton.1 hcopy
    exact ⟨hm.nodup, hm.types, hm.members, hm.typeRefs, hm.memberRefs⟩

/-! ## Shapes -/

/-- A set declares what the module declares, in its places, and then the same types again, which a plan
makes part of the former. -/
structure Copied (m : LoadedModule) (p : Policy) (set : ModuleSet) (plan : Plan) (again : List Declaration) :
    Prop where
  declarations : set.declarations = ModuleSet.declarationsOf m.module 0 ++ again
  first : ∀ i type, m.module.types[i]? = some type → plan.placement? ⟨0, i⟩ = some (.emit type.name false)
  copies : ∀ d ∈ again, m.module.types[d.origin.index]? = some d.type ∧
    plan.placement? d.origin = some (.into ⟨0, d.origin.index⟩)
  names : ∀ d ∈ set.declarations,
    (Linkage.ofSet set p).names d.origin.module = (Linkage.ofSet (.alone m) p).names 0
  repeats : NamedAttribute.repeats set p = NamedAttribute.repeats (.alone m) p
  numbered : set.WellNumbered

/-- The shapes of the module alone with their places. -/
def shapesOf (m : LoadedModule) (p : Policy) : PlacedShapes :=
  ownPlaced (.ofSet (.alone m) p) (ModuleSet.declarationsOf m.module 0)

/-- A shape has the place of its type. -/
theorem mem_shapesOf {q : Origin × Shape} : q ∈ shapesOf m p ↔
    ∃ i type, m.module.types[i]? = some type ∧ q = (⟨0, i⟩, own (.ofSet (.alone m) p) 0 type) := by
  rw [shapesOf, ownPlaced, List.mem_map]
  constructor
  · rintro ⟨d, hd, rfl⟩
    obtain ⟨i, type, htype, rfl⟩ := ModuleSet.mem_declarationsOf.1 hd
    exact ⟨i, type, htype, rfl⟩
  · rintro ⟨i, type, htype, rfl⟩
    exact ⟨⟨⟨0, i⟩, m.module, type⟩, ModuleSet.mem_declarationsOf.2 ⟨i, type, htype, rfl⟩, rfl⟩

theorem map_snd_shapesOf : (shapesOf m p).map Prod.snd = ownAll (.ofSet (.alone m) p) 0 m.module.types := by
  have hmap : (shapesOf m p).map Prod.snd =
      m.module.types.zipIdx.map fun x => own (.ofSet (.alone m) p) 0 x.1 := by
    rw [shapesOf, ownPlaced, ModuleSet.declarationsOf, List.map_map, List.map_map]
    rfl
  have hfst : (fun x : TypeDef × Nat => own (.ofSet (.alone m) p) 0 x.1) =
      own (.ofSet (.alone m) p) 0 ∘ Prod.fst := rfl
  rw [hmap, hfst, ← List.map_map, List.zipIdx_map_fst, ownAll_eq]

theorem nodup_shapesOf : ((shapesOf m p).map Prod.fst).Nodup := by
  have hmap : (shapesOf m p).map Prod.fst =
      (ModuleSet.declarationsOf m.module 0).map Declaration.origin := List.map_map
  have hall := ModuleSet.nodup_origins (.alone m)
  rwa [ModuleSet.declarations_alone, ← hmap] at hall

namespace Copied

variable {set : ModuleSet} {again : List Declaration} (h : Copied m p set plan again)

include h

theorem mem_first {i : Nat} {type : TypeDef} (htype : m.module.types[i]? = some type) :
    ⟨⟨0, i⟩, m.module, type⟩ ∈ set.declarations :=
  h.declarations ▸ List.mem_append_left again (ModuleSet.mem_declarationsOf.2 ⟨i, type, htype, rfl⟩)

theorem own_eq {i : Nat} {type : TypeDef} (htype : m.module.types[i]? = some type) :
    own (.ofSet set p) 0 type = own (.ofSet (.alone m) p) 0 type :=
  own_congr (h.names _ (h.mem_first htype)) h.repeats type

/-- The shapes are those of the module alone. -/
theorem placed (hp : p.Plain) (hapart : ∀ t ∈ m.module.types, t.NamesApart) :
    Shaping.Settles (set.declarations.foldlM (placeDeclaration (.ofSet set p) plan) [])
      fun placed _ => placed = shapesOf m p := by
  have hnumbered : (Linkage.ofSet set p).set.WellNumbered := h.numbered
  have hagain : ∀ d ∈ again, d ∈ set.declarations :=
    fun d hd => h.declarations ▸ List.mem_append_right _ hd
  rw [h.declarations, List.foldlM_append]
  refine Shaping.Settles.bind (placeDeclarations_own hnumbered hp.drops_eq fun d hd => ?_) ?_
  · obtain ⟨i, type, htype, rfl⟩ := ModuleSet.mem_declarationsOf.1 hd
    exact ⟨h.mem_first htype, h.first i type htype, hapart type (List.mem_of_getElem? htype)⟩
  · rintro _ _ rfl
    have hown : ownPlaced (.ofSet set p) (ModuleSet.declarationsOf m.module 0) = shapesOf m p := by
      refine List.map_congr_left fun d hd => ?_
      obtain ⟨i, type, htype, rfl⟩ := ModuleSet.mem_declarationsOf.1 hd
      exact congrArg (Prod.mk _) (h.own_eq htype)
    rw [hown]
    refine Shaping.Settles.foldlM (motive := fun _ shapes _ => shapes = shapesOf m p) rfl ?_
    rintro done d rest hdone shapes new rfl
    have hd : d ∈ again := by simp [← hdone]
    obtain ⟨htype, hplace⟩ := h.copies d hd
    have hnames : (Linkage.ofSet set p).names d.origin.module = (Linkage.ofSet set p).names 0 :=
      (h.names d (hagain d hd)).trans (h.names _ (h.mem_first htype)).symm
    refine placeDeclaration_again hnumbered hp.drops_eq (hagain d hd) (hapart _ (List.mem_of_getElem? htype))
      hnames hplace nodup_shapesOf ?_
    rw [lookup_eq_some_iff_mem nodup_shapesOf, h.own_eq htype]
    exact mem_shapesOf.2 ⟨_, _, htype, rfl⟩

/-- Every declared type has landed in the shape of the module's type. -/
theorem receives {rs : List Redirect} (hlanded : Landed (.ofSet set p) plan set.declarations (shapesOf m p) rs)
    {d : Declaration} (hd : d ∈ set.declarations) :
    Receives (.ofSet set p) rs d.origin.module d.type (own (.ofSet (.alone m) p) 0 d.type) := by
  obtain ⟨q, hq, hgoes, hreceives⟩ := hlanded.held d hd
  obtain ⟨i, type, htype, rfl⟩ := mem_shapesOf.1 hq
  have hsame : type = d.type := by
    rw [h.declarations] at hd
    rcases List.mem_append.1 hd with hfirst | hcopy
    · obtain ⟨k, other, hother, rfl⟩ := ModuleSet.mem_declarationsOf.1 hfirst
      rcases hgoes with horigin | hinto
      · obtain ⟨-, rfl⟩ := Origin.mk.inj horigin
        exact Option.some.inj (htype.symm.trans hother)
      · rw [h.first k other hother] at hinto
        cases hinto
    · obtain ⟨hother, hplace⟩ := h.copies d hcopy
      rcases hgoes with horigin | hinto
      · rw [horigin] at hother
        exact Option.some.inj (htype.symm.trans hother)
      · obtain ⟨-, hindex⟩ := Origin.mk.inj (Placement.into.inj (Option.some.inj (hplace.symm.trans hinto)))
        rw [hindex] at hother
        exact Option.some.inj (htype.symm.trans hother)
  rwa [hsame] at hreceives

end Copied

/-! ## Counterparts -/

theorem mem_declarations {set : ModuleSet} {i k : Nat} {module : Module} {type : TypeDef}
    (hmodule : set.inputs[i]? = some module) (htype : module.types[k]? = some type) :
    ⟨⟨i, k⟩, module, type⟩ ∈ set.declarations := by
  rw [ModuleSet.declarations, List.mem_flatMap]
  refine ⟨(module, i), List.mk_mem_zipIdx_iff_getElem?.2 hmodule, ?_⟩
  exact ModuleSet.mem_declarationsOf.2 ⟨k, type, htype, rfl⟩

/-- The first pass over a set that declares the types of a module again: its shapes are those of the module
alone, and they are numbered before tokens are redirected. -/
structure FirstPass (m : LoadedModule) (p : Policy) (set : ModuleSet) (plan : Plan) (again : List Declaration)
    (rs : List Redirect) (sub₀ sub : Substitution) (a : Allocator) : Prop
    extends Copied m p set plan again where
  landed : Landed (.ofSet set p) plan set.declarations (shapesOf m p) rs
  numbers : (numberAll ((withinAll ((shapesOf m p).map Prod.snd)).flatMap slots)).run.run (.empty, .empty) =
    (.ok ⟨⟩, (sub₀, a))
  redirects : rs.foldlM applyRedirect sub₀ = .ok sub

namespace FirstPass

variable {set : ModuleSet} {again : List Declaration} {rs : List Redirect} {sub₀ sub : Substitution}
  {a : Allocator}

theorem settled (h : FirstPass m p set plan again rs sub₀ sub a) :
    Settled set ((shapesOf m p).map Prod.snd) rs sub :=
  h.landed.settled h.numbered.identified (substitution_of_ok h.numbers h.redirects)

/-- What a token goes to has the number that it got first. -/
theorem get?_of_goesTo (h : FirstPass m p set plan again rs sub₀ sub a) {k kept : SourceToken}
    (hkept : kept ∈ filedAll ((shapesOf m p).map Prod.snd)) (hgoes : GoesTo rs k kept) :
    sub.get? k = sub₀.get? kept :=
  (h.settled.get?_eq hgoes).trans (h.landed.get?_filed h.numbered.identified h.redirects hkept)

/-- No other tokens than those of definitions have counterparts. -/
theorem get?_eq_none (h : FirstPass m p set plan again rs sub₀ sub a) {i : Nat} {module : Module}
    (hmodule : set.inputs[i]? = some module) {token : Token}
    (htoken : token ∉ module.allTypes.flatMap TypeDef.definedTokens) : sub.get? ⟨i, token⟩ = none := by
  rcases hget : sub.get? ⟨i, token⟩ with _ | new
  · rfl
  · obtain ⟨declaring, hdeclaring, hmem⟩ := ModuleSet.mem_keys.1 (h.settled.declared _ _ hget)
    obtain rfl := Option.some.inj (hmodule.symm.trans hdeclaring)
    exact absurd hmem htoken

/-- The definitions of a copy have the counterparts that those of the module alone have. -/
theorem get?_eq {plan₁ : Plan} {rs₁ : List Redirect} {sub₁ : Substitution}
    (h₁ : FirstPass m p (.alone m) plan₁ [] rs₁ sub₀ sub₁ a)
    (h : FirstPass m p set plan again rs sub₀ sub a) {i : Nat} {other : String}
    (hi : set.inputs[i]? = some (m.module.called other)) (hapart : ∀ t ∈ m.module.types, t.NamesApart)
    (token : Token) : sub.get? ⟨i, token⟩ = sub₁.get? ⟨0, token⟩ := by
  have hone : (ModuleSet.alone m).inputs[0]? = some m.module := rfl
  by_cases htoken : token ∈ m.module.allTypes.flatMap TypeDef.definedTokens
  · obtain ⟨u, hu, hdefined⟩ := List.mem_flatMap.1 htoken
    obtain ⟨t, ht, hwithin⟩ := List.mem_flatMap.1 hu
    obtain ⟨k, hk⟩ := List.mem_iff_getElem?.1 ht
    have hd := mem_declarations hi hk
    obtain ⟨kept, hkept, hgoes₁, hgoes⟩ := defined_same rfl (h.names _ hd) t (hapart t ht)
      (h₁.receives h₁.landed (mem_declarations hone hk)) (h.receives h.landed hd) u hwithin token hdefined
    have hfiled : kept ∈ filedAll ((shapesOf m p).map Prod.snd) := by
      rw [filedAll_eq, List.flatMap_map]
      exact List.mem_flatMap.2 ⟨_, mem_shapesOf.2 ⟨k, t, hk, rfl⟩, hkept⟩
    rw [h.get?_of_goesTo hfiled hgoes, h₁.get?_of_goesTo hfiled hgoes₁]
  · rw [h.get?_eq_none hi htoken, h₁.get?_eq_none hone htoken]

end FirstPass

namespace Copied

variable {set : ModuleSet} {again : List Declaration} (h : Copied m p set plan again)

include h

/-- Shapes and redirects of a first pass that answers. -/
theorem built (hp : p.Plain) (hapart : ∀ t ∈ m.module.types, t.NamesApart) :
    Shaping.Settles (buildAll (.ofSet set p) plan) fun shapes rs => shapes = (shapesOf m p).map Prod.snd ∧
      Landed (.ofSet set p) plan set.declarations (shapesOf m p) rs := by
  refine (buildAll_of_placed ((h.placed hp hapart).and (placeDeclarations_lands (.ofSet set p) plan))).mono ?_
  rintro shapes rs ⟨placed, rfl, rfl, hlanded⟩
  exact ⟨rfl, hlanded⟩

theorem firstPass (hp : p.Plain) (hapart : ∀ t ∈ m.module.types, t.NamesApart) {log log' : Log}
    {shapes : List Shape} {sub : Substitution} {a : Allocator}
    (hlayout : (layOut (.ofSet set p) plan).run.run log = (.ok (shapes, sub, a), log')) :
    shapes = (shapesOf m p).map Prod.snd ∧ ∃ rs sub₀, FirstPass m p set plan again rs sub₀ sub a := by
  obtain ⟨rs, ⟨rfl, hlanded⟩, hsub⟩ := layOut_settles (h.built hp hapart) hlayout
  obtain ⟨sub₀, hnumbers, hredirects⟩ := substitution_eq_ok hsub
  exact ⟨rfl, rs, sub₀, h, hlanded, hnumbers, hredirects⟩

/-- With a place for every type the first pass answers once the shapes can be numbered. -/
theorem exists_firstPass (hp : p.Plain) (hapart : ∀ t ∈ m.module.types, t.NamesApart)
    (hplaces : plan.Places set) {sub₀ : Substitution} {a : Allocator}
    (hnumbers : (numberAll ((withinAll ((shapesOf m p).map Prod.snd)).flatMap slots)).run.run
      (.empty, .empty) = (.ok ⟨⟩, (sub₀, a))) (log : Log) :
    ∃ rs sub log', FirstPass m p set plan again rs sub₀ sub a ∧
      (layOut (.ofSet set p) plan).run.run log = (.ok ((shapesOf m p).map Prod.snd, sub, a), log') := by
  have hnumbered : (Linkage.ofSet set p).set.WellNumbered := h.numbered
  rcases hbuilt : ((buildAll (.ofSet set p) plan).run.run []).run log with ⟨⟨result, rs⟩, log'⟩
  obtain ⟨shapes, hshapes, -⟩ := hplaces.buildAll_reaches (l := .ofSet set p) rfl [] log
  rw [hbuilt] at hshapes
  obtain rfl : result = .ok shapes := hshapes
  obtain ⟨rfl, hlanded⟩ := (h.built hp hapart).of_run hbuilt
  obtain ⟨placed, hplaced, haccounted⟩ := (buildAll_settles hnumbered plan).of_run hbuilt
  have haccounted := haccounted.accounted hnumbered
  rw [← hplaced] at haccounted
  obtain ⟨sub, hredirects⟩ := haccounted.redirects_answer hnumbers
  refine ⟨rs, sub, log', ⟨h, hlanded, hnumbers, hredirects⟩, ?_⟩
  exact layOut_of_built hbuilt (substitution_of_ok hnumbers hredirects)

end Copied

/-! ## References -/

theorem importAll_alone : importAll (.ofSet (.alone m) p) plan =
    importModule (.ofSet (.alone m) p) 0 m.module >>= fun _ =>
      plan.attributes.mapM (importAttribute (.ofSet (.alone m) p)) := by
  have hinputs : (Linkage.ofSet (.alone m) p).set.inputs.zipIdx = [(m.module, 0)] := rfl
  unfold importAll
  rw [hinputs]
  simp only [List.forM, bind_assoc, pure_bind]

theorem importAll_pair : importAll (.ofSet (doubled m path name) p) plan =
    importModule (.ofSet (doubled m path name) p) 0 m.module >>= fun _ =>
      importModule (.ofSet (doubled m path name) p) 1 (m.module.called name) >>= fun _ =>
        plan.attributes.mapM (importAttribute (.ofSet (doubled m path name) p)) := by
  have hinputs : (Linkage.ofSet (doubled m path name) p).set.inputs.zipIdx =
      [(m.module, 0), (m.module.called name, 1)] := rfl
  unfold importAll
  rw [hinputs]
  simp only [List.forM, bind_assoc, pure_bind]

/-- What is imported for the module alone is imported for it beside a copy, and the copy adds nothing. -/
theorem importAll_doubled (hm : m.module.Identified) (hunknown : ∀ r ∈ m.module.references, r.name ≠ name)
    {sub₁ sub : Substitution} {a : Allocator}
    (hsub : ∀ i, i = 0 ∨ i = 1 → ∀ token, sub.get? ⟨i, token⟩ = sub₁.get? ⟨0, token⟩)
    (hplanned : plan'.attributes = plan.attributes) (hprimary : ∀ x ∈ plan.attributes, x.source = .input 0)
    {attributes : List Attribute} {tables : ImportTables}
    (h : (importAll (.ofSet (.alone m) p) plan).run.run ⟨sub₁, a, [], [], []⟩ = (.ok attributes, tables)) :
    ∃ tables', (importAll (.ofSet (doubled m path name) p) plan').run.run ⟨sub, a, [], [], []⟩ =
        (.ok attributes, tables') ∧ tables.SameRows tables' ∧
      ∀ token, tables'.substitution.get? ⟨0, token⟩ = tables.substitution.get? ⟨0, token⟩ := by
  rw [importAll_alone] at h
  obtain ⟨_, mid, hmodule, hattributes⟩ := run_bind_eq_ok h
  have htwin : ∀ j, j = 0 ∨ j = 1 → Twin (.ofSet (.alone m) p) (.ofSet (doubled m path name) p) m.module j :=
    fun j hj => twin_doubled hm hunknown hj
  -- the module itself, from tables that say the same of it
  have hself : Mirrored m.module 0 sub none (importModule (.ofSet (.alone m) p) 0 m.module)
      (importModule (.ofSet (doubled m path name) p) 0 m.module) :=
    importModule_mirrored (htwin 0 (.inl rfl)) m.module.name
  obtain ⟨-, hfirst⟩ := hself _ _ _ hmodule
  obtain ⟨mid', hmodule', hmid⟩ := hfirst ⟨sub, a, [], [], []⟩
    ⟨⟨rfl, rfl, rfl, rfl⟩, hsub 0 (.inl rfl), fun token _ => hsub 0 (.inl rfl) token, fun _ _ => rfl⟩ nofun
  -- its copy, in tables that have all rows already
  have hother : Mirrored m.module 1 mid'.substitution (some mid)
      (importModule (.ofSet (.alone m) p) 0 m.module)
      (importModule (.ofSet (doubled m path name) p) 1 (m.module.called name)) :=
    importModule_mirrored (htwin 1 (.inr rfl)) name
  obtain ⟨hbegins, hsecond⟩ := hother _ _ _ hmodule
  have hkept (token : Token) : mid'.substitution.get? ⟨1, token⟩ = sub.get? ⟨1, token⟩ :=
    hmid.others ⟨1, token⟩ Nat.one_ne_zero
  obtain ⟨last, hcopy, hlast⟩ := hsecond mid' ⟨hmid.rows,
    fun token => (hkept token).trans (hsub 1 (.inr rfl) token),
    fun token htoken => (hmid.declared token htoken).trans (hbegins.declared token htoken), fun _ _ => rfl⟩
    (fun f hf => Option.some.inj hf ▸ .refl _ _)
  have htokens (token : Token) :
      last.substitution.get? ⟨0, token⟩ = mid.substitution.get? ⟨0, token⟩ :=
    (hlast.others ⟨0, token⟩ Nat.zero_ne_one).trans (hmid.tokens token)
  -- and the attributes, which are those of the module
  have hmapped : Mirrored m.module 0 last.substitution none
      (plan.attributes.mapM (importAttribute (.ofSet (.alone m) p)))
      (plan.attributes.mapM (importAttribute (.ofSet (doubled m path name) p))) := by
    refine Mirrored.mapM fun x hx => ?_
    obtain ⟨source, index⟩ := x
    obtain rfl : source = .input 0 := hprimary _ hx
    exact importAttribute_mirrored (htwin 0 (.inl rfl)) index
  obtain ⟨-, hthird⟩ := hmapped _ _ _ hattributes
  obtain ⟨tables', hattributes', htables⟩ := hthird last
    ⟨hlast.rows, htokens, fun token _ => htokens token, fun _ _ => rfl⟩ nofun
  refine ⟨tables', ?_, htables.rows, htables.tokens⟩
  rw [importAll_pair, hplanned]
  exact (run_bind_of_ok hmodule').trans ((run_bind_of_ok hcopy).trans hattributes')

/-! ## Plans -/

theorem copied_alone (hm : m.module.WellNumbered) (hnames : (m.module.walk.map Prod.snd).Nodup) {log : Log}
    (hplan : ((Plan.build (.alone m) (.ofSet (.alone m)) p).run.run log).1 = .ok plan) :
    Copied m p (.alone m) plan [] := by
  constructor
  · rw [ModuleSet.declarations_alone, List.append_nil]
  · exact fun i type htype => Plan.placement_alone (Module.nodup_qualifiedNames hnames) hplan htype
  · exact fun d hd => absurd hd List.not_mem_nil
  · intro d hd
    rw [ModuleSet.declarations_alone] at hd
    obtain ⟨i, type, -, rfl⟩ := ModuleSet.mem_declarationsOf.1 hd
    rfl
  · rfl
  · exact wellNumbered_alone hm

theorem copied_doubled (hm : m.module.WellNumbered) (hnames : (m.module.walk.map Prod.snd).Nodup)
    (hunion : p.options.unionMerge) (hunites : ∀ t ∈ m.module.types, TypeDef.unites m.module m.module t t)
    {log : Log} (hplan : ((Plan.build (doubled m path name) (.ofSet (doubled m path name)) p).run.run log).1 =
      .ok plan) :
    Copied m p (doubled m path name) plan (ModuleSet.declarationsOf (m.module.called name) 1) := by
  have hplaces {i : Nat} {type : TypeDef} (htype : m.module.types[i]? = some type) :=
    Plan.placement_pair (Module.nodup_qualifiedNames hnames) hunion hunites hplan htype
  constructor
  · exact ModuleSet.declarations_pair m _
  · exact fun i type htype => (hplaces htype).1
  · intro d hd
    obtain ⟨i, type, htype, rfl⟩ := ModuleSet.mem_declarationsOf.1 hd
    exact ⟨htype, (hplaces htype).2⟩
  · intro d hd
    rw [ModuleSet.declarations_pair] at hd
    rcases List.mem_append.1 hd with hmem | hmem
    · obtain ⟨i, type, -, rfl⟩ := ModuleSet.mem_declarationsOf.1 hmem
      exact names_doubled (.inl rfl)
    · obtain ⟨i, type, -, rfl⟩ := ModuleSet.mem_declarationsOf.1 hmem
      exact names_doubled (.inr rfl)
  · exact repeats_doubled
  · exact wellNumbered_doubled hm

/-- A copy adds no resources and no attributes. -/
theorem contents_doubled (hp : p.Plain) {log log' : Log}
    (hplan : ((Plan.build (.alone m) (.ofSet (.alone m)) p).run.run log).1 = .ok plan)
    (hplan' : ((Plan.build (doubled m path name) (.ofSet (doubled m path name)) p).run.run log').1 =
      .ok plan') : plan'.resources = plan.resources ∧ plan'.attributes = plan.attributes := by
  obtain ⟨hresources, hattributes⟩ := Plan.build_contents hp hplan
  obtain ⟨hresources', hattributes'⟩ := Plan.build_contents hp hplan'
  have hone : (ModuleSet.alone m).inputs.flatMap Module.resources = m.module.resources := List.append_nil _
  have htwo : (doubled m path name).inputs.flatMap Module.resources =
      m.module.resources ++ m.module.resources := congrArg (m.module.resources ++ ·) (List.append_nil _)
  constructor
  · rw [hresources, hresources', hone, htwo, Plan.firstResources, Plan.firstResources,
      firsts_append_of_mem fun r hr => List.mem_map_of_mem hr]
  · rw [hattributes, hattributes', Plan.keptAttributes, Plan.keptAttributes, repeats_doubled]
    rfl

/-- The attributes of the module alone are its own. -/
theorem source_of_mem_attributes (hp : p.Plain) {log : Log}
    (hplan : ((Plan.build (.alone m) (.ofSet (.alone m)) p).run.run log).1 = .ok plan) :
    ∀ x ∈ plan.attributes, x.source = .input 0 := by
  intro x hx
  rw [(Plan.build_contents hp hplan).2] at hx
  obtain ⟨kept, hkept, rfl⟩ := List.mem_map.1 hx
  obtain ⟨place, -, rfl⟩ := List.mem_map.1 ((accept_sublist _ _ _).subset hkept)
  rfl

/-- Nothing is left out where nothing is to be dropped. -/
theorem retained_eq (hp : p.Plain) (set : ModuleSet) (source : Nat) :
    retained (.ofSet set p) source = id := by
  funext attributes
  refine List.filter_eq_self.2 fun a _ => ?_
  split
  case h_1 fullName _ => exact congrArg (!·) (hp.drops_eq fullName)
  case h_2 => rfl

/-! ## The output -/

/-- A copy changes nothing: if each type of a module can become one with itself, then whatever the output
for the module alone is, the one for the module and a copy of it under another name, to which the module
does not refer, is there and is the same. -/
theorem run_beside_copy (hp : p.Plain) (hunion : p.options.unionMerge) (hm : m.module.WellNumbered)
    (hnames : (m.module.walk.map Prod.snd).Nodup)
    (hunites : ∀ t ∈ m.module.types, TypeDef.unites m.module m.module t t)
    (hunknown : ∀ r ∈ m.module.references, r.name ≠ name) {log log' : Log} {out : Module}
    (hplan : ((Plan.build (.alone m) (.ofSet (.alone m)) p).run.run log).1 = .ok plan)
    (hrun : ((run (.alone m) plan p).run.run log').1 = .ok out) (path : Path) (log₁ log₂ : Log) :
    ∃ plan', ((Plan.build (doubled m path name) (.ofSet (doubled m path name)) p).run.run log₁).1 = .ok plan' ∧
      ((run (doubled m path name) plan' p).run.run log₂).1 = .ok out := by
  have hapart := Module.namesApart hnames
  have hkeeps : Plan.PrimaryKeeps (doubled m path name) p :=
    Plan.primaryKeeps_pair (Module.nodup_qualifiedNames hnames) hunion hunites
  obtain ⟨plan', hplan'⟩ := hkeeps.exists_build log₁
  obtain ⟨shapes, sub₁, a, attributes, tables, types, entryPoint, log'', hlayout, himport, hwritten, hentry,
    rfl⟩ := run_eq_ok hrun
  have hcopied := copied_alone hm hnames hplan
  have hcopied' := copied_doubled hm hnames hunion hunites hplan'
  obtain ⟨rfl, rs₁, sub₀, hpass₁⟩ := hcopied.firstPass hp hapart hlayout
  obtain ⟨rs, sub, log₃, hpass, hlayout'⟩ := hcopied'.exists_firstPass hp hapart
    (Plan.places_of_build hplan') hpass₁.numbers log₂
  have hsub (i : Nat) (hi : i = 0 ∨ i = 1) (token : Token) : sub.get? ⟨i, token⟩ = sub₁.get? ⟨0, token⟩ := by
    obtain ⟨other, hother⟩ := getElem?_doubled hi
    exact hpass₁.get?_eq hpass hother hapart token
  obtain ⟨hresources, hattributes⟩ := contents_doubled hp hplan hplan'
  obtain ⟨tables', himport', hrows, htokens⟩ := importAll_doubled hm.identified hunknown hsub hattributes
    (source_of_mem_attributes hp hplan) himport
  have hresolve : tables'.substitution.resolve 0 = tables.substitution.resolve 0 := by
    funext token
    rw [Substitution.resolve, Substitution.resolve, htokens token]
  have hwritten' : writeAll (.ofSet (doubled m path name) p) tables'.substitution
      ((shapesOf m p).map Prod.snd) = .ok types := by
    rw [map_snd_shapesOf] at hwritten ⊢
    rwa [writeAll_own_congr hresolve ((retained_eq hp _ 0).trans (retained_eq hp _ 0).symm)]
  refine ⟨plan', hplan', (run_of_passes hlayout' himport' hwritten' (hresolve ▸ hentry)).trans ?_⟩
  unfold outcome
  rw [hrows.references, hrows.typeRefs, hrows.memberRefs, hresources]
  rfl

end

/-- A module whose type has a field, a method and a nested type. -/
def boxAlone : LoadedModule := ⟨⟨"first.dll"⟩, boxModule "first" (some ⟨0x06000001⟩)⟩

/-- The plan for this module. -/
def boxAlonePlan : Plan :=
  { placements := [(⟨0, 0⟩, .emit "Box" false)], resources := [], attributes := [], renames := [], hidden := 0 }

theorem run_beside_copy_boxAlone : ∃ out,
    ((run (.alone boxAlone) boxAlonePlan unionPolicy).run.run []).1 = .ok out ∧
    ∃ plan', ((Plan.build (doubled boxAlone ⟨"second.dll"⟩ "second")
        (.ofSet (doubled boxAlone ⟨"second.dll"⟩ "second")) unionPolicy).run.run []).1 = .ok plan' ∧
      ((run (doubled boxAlone ⟨"second.dll"⟩ "second") plan' unionPolicy).run.run []).1 = .ok out := by
  have hplan : ((Plan.build (.alone boxAlone) (.ofSet (.alone boxAlone)) unionPolicy).run.run []).1 =
      .ok boxAlonePlan := by decide +kernel
  have hok : ((run (.alone boxAlone) boxAlonePlan unionPolicy).run.run []).1.isOk := by decide +kernel
  obtain ⟨out, hout⟩ := exists_eq_ok hok
  exact ⟨out, hout, run_beside_copy ⟨rfl, rfl, rfl, rfl⟩ rfl (by decide) (by decide +kernel)
    (by decide +kernel) (by decide +kernel) hplan hout _ [] []⟩

end Relocation

end ModuleLinker
