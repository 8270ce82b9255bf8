import ModuleLinker.Proofs.Relocation.KeptParts
import ModuleLinker.Proofs.Relocation.Reduced
import ModuleLinker.Proofs.Relocation.Restating

namespace ModuleLinker

/-! # Relocating the output again

The output of a relocation of a module by itself is in normal form, so a further relocation leaves it as it is.
What would not keep still are names that show rows: a token that is none of a type has its own text for a name,
and another text once it has been renumbered.
-/

/-! ## Modules in normal form

A relocation leaves some modules as they are: those whose definitions have the tokens of the first rows, in
their order, whose types are reduced, whose references are such as an import leaves them, and whose
attributes and resources would all be kept.
-/

/-! ### Numbering what has been numbered -/

/-- Tokens that are those of the first rows of their tables get themselves. -/
theorem Shape.numberAll_again {ts : List Token} (hnodup : ts.Nodup)
    (hinOrder : ∀ table, Token.InOrder table (ts.filter (·.table == table))) : ∃ sub a,
    (numberAll (ts.map fun t => (t.table, ⟨0, t⟩))).run.run (.empty, .empty) = (.ok ⟨⟩, (sub, a)) ∧
      ∀ t ∈ ts, sub.get? ⟨0, t⟩ = some t := by
  have hfilter (table : UInt8) : (ts.map fun t => (t.table, SourceToken.mk 0 t)).filter (·.1 == table) =
      (ts.filter (·.table == table)).map fun t => (t.table, ⟨0, t⟩) := List.filter_map
  have hends := numberAll_ends (ts.map fun t => (t.table, ⟨0, t⟩))
  rcases hrun : (numberAll (ts.map fun t => (t.table, SourceToken.mk 0 t))).run.run (.empty, .empty) with
    ⟨fault | _, sub, a⟩
  case error =>
    -- no table has too many tokens
    obtain ⟨table, -, hfull⟩ := hends.of_error hrun
    rw [List.countP_eq_length_filter, hfilter, List.length_map] at hfull
    exact absurd (hinOrder table).room (Nat.not_le.2 hfull)
  refine ⟨sub, a, hrun, fun t ht => ?_⟩
  have hkeys : ((ts.map fun t => (t.table, SourceToken.mk 0 t)).map Prod.snd).Nodup := by
    rw [List.map_map]
    exact hnodup.map fun _ _ h => (SourceToken.mk.inj h).2
  obtain ⟨tokens, htokens, hget⟩ := numberAll_inOrder hkeys hrun t.table
  rw [hfilter, List.map_map] at hget
  have hlength := congrArg List.length hget
  rw [List.length_map, List.length_map] at hlength
  have hsame : ts.filter (·.table == t.table) = tokens := by
    rw [(hinOrder t.table).eq, htokens.eq, hlength]
  rw [← hsame, List.map_inj_left] at hget
  exact hget t (List.mem_filter.2 ⟨ht, beq_self_eq_true _⟩)

namespace Relocation

open Shape Importing ImportTables

variable {m : LoadedModule} {p : Policy} {plan : Plan}

/-- Whether there is nothing left for a relocation to change. -/
structure Normal (m : LoadedModule) (p : Policy) : Prop where
  numbered : m.module.WellNumbered
  names : (m.module.walk.map Prod.snd).Nodup
  inOrder : ∀ table, Token.InOrder table
    ((m.module.allTypes.flatMap TypeDef.definedTokens).filter (·.table == table))
  reduced : ∀ t ∈ m.module.allTypes, Reduced (.ofSet (.alone m) p) 0 t
  references : References m p
  typeUses : ∀ type ∈ m.module.allTypes, ∀ t ∈ type.tokens, m.module.Names t
  attributeUses : ∀ a ∈ m.module.attributes, m.module.Names a.type
  entryPointUse : ∀ t ∈ m.module.entryPoint, m.module.Names t
  attributes : AllFit (NamedAttribute.standsBeside (NamedAttribute.repeats (.alone m) p))
    NamedAttribute.content (Plan.namedAttributes m.module)
  resources : Plan.firstResources m.module.resources = m.module.resources
  mvid : m.module.mvid = .zero
  signature : m.module.signature = none

namespace Normal

/-! ### Definitions -/

theorem keysOf_eq (h : Normal m p) : keysOf ((shapesOf m p).map Prod.snd) =
    (m.module.allTypes.flatMap TypeDef.definedTokens).map (SourceToken.mk 0) := by
  rw [map_snd_shapesOf, keysOf, withinAll_ownAll, List.flatMap_map, List.map_flatMap, TypeDef.withinAll_eq]
  exact List.flatMap_congr fun t ht => (h.reduced t ht).keys_own

theorem slots_eq (h : Normal m p) : (withinAll ((shapesOf m p).map Prod.snd)).flatMap slots =
    (m.module.allTypes.flatMap TypeDef.definedTokens).map fun t => (t.table, ⟨0, t⟩) := by
  have hkeys := h.keysOf_eq
  rw [map_snd_shapesOf] at hkeys ⊢
  rw [slots_ownAll, hkeys, List.map_map]
  · rfl
  · rw [TypeDef.withinAll_eq]
    exact h.numbered.types
  · rw [TypeDef.withinAll_eq]
    exact h.numbered.members

/-! ### The passes of a relocation -/

section

variable {rs : List Redirect} {sub₀ sub : Substitution} {a : Allocator}

/-- After the first pass the definitions stand for themselves, and nothing else has a counterpart. -/
theorem restates_start (h : Normal m p) (hpass : FirstPass m p (.alone m) plan [] rs sub₀ sub a)
    (hget : ∀ t ∈ m.module.allTypes.flatMap TypeDef.definedTokens, sub₀.get? ⟨0, t⟩ = some t) :
    (⟨sub, a, [], [], []⟩ : ImportTables).Restates (m.module.withRows [] [] []) := by
  have hmodule : (ModuleSet.alone m).inputs[0]? = some m.module := rfl
  have hsub := substitution_of_ok hpass.numbers hpass.redirects
  refine ⟨rfl, rfl, rfl, handedOut_nil hsub (by decide), handedOut_nil hsub (by decide), fun t => ?_⟩
  by_cases ht : t ∈ m.module.allTypes.flatMap TypeDef.definedTokens
  · rw [if_pos (Module.mem_definedTokens_withRows.2 (.inl ht)), ← hget t ht]
    refine hpass.landed.get?_filed hpass.numbered.identified hpass.redirects ?_
    have hkeys := h.keysOf_eq
    rw [map_snd_shapesOf] at hkeys ⊢
    rw [filedAll_ownAll, hkeys]
    exact List.mem_map_of_mem ht
  · rw [if_neg, hpass.get?_eq_none hmodule ht]
    rw [Module.mem_definedTokens_withRows]
    rintro (hmem | hmem | hmem)
    · exact ht hmem
    · exact absurd hmem List.not_mem_nil
    · exact absurd hmem List.not_mem_nil

end

/-- Importing gives the references and the attributes again. -/
theorem importAll_restates (h : Normal m p) {tables : ImportTables}
    (htables : tables.Restates (m.module.withRows [] [] []))
    (hattributes : plan.attributes = attributePlaces m.module) {fails : Fault → Prop} :
    Ends tables (importAll (.ofSet (.alone m) p) plan)
      (fun tables' as => tables'.Restates m.module ∧ as = m.module.attributes) fails := by
  rw [importAll_alone, hattributes]
  refine (h.references.importModule_restates h.numbered htables).bind fun _ tables' htables' => ?_
  refine (importAttributes_restate htables' h.attributeUses).mono ?_
  rintro as _ ⟨rfl, has⟩
  exact ⟨htables', has⟩

/-- All attributes are planned. -/
theorem attributes_plan (h : Normal m p) (hp : p.Plain) {log : Log}
    (hplan : ((Plan.build (.alone m) (.ofSet (.alone m)) p).run.run log).1 = .ok plan) :
    plan.attributes = attributePlaces m.module := by
  rw [(Plan.build_contents hp hplan).2, Plan.keptAttributes_of_allFit h.attributes]
  rfl

theorem resources_plan (h : Normal m p) (hp : p.Plain) {log : Log}
    (hplan : ((Plan.build (.alone m) (.ofSet (.alone m)) p).run.run log).1 = .ok plan) :
    plan.resources = m.module.resources := by
  have hone : (ModuleSet.alone m).inputs.flatMap Module.resources = m.module.resources := List.append_nil _
  rw [(Plan.build_contents hp hplan).1, hone, h.resources]

/-- The types are written as they are. -/
theorem writeAll_eq (h : Normal m p) (hp : p.Plain) {tables : ImportTables} (htables : tables.Restates m.module) :
    writeAll (.ofSet (.alone m) p) tables.substitution ((shapesOf m p).map Prod.snd) = .ok m.module.types := by
  have hretained := retained_eq hp (.alone m) 0
  rw [map_snd_shapesOf, writeAll_answers]
  · refine congrArg _ (imageAll_ownAll htables.counterpart_eq hretained _ fun t ht u hu => ?_)
    exact h.reduced u (List.mem_flatMap.2 ⟨t, ht, hu⟩)
  · intro s hs
    rw [withinAll_ownAll, TypeDef.withinAll_eq] at hs
    obtain ⟨t, ht, rfl⟩ := List.mem_map.1 hs
    refine resolved_own hretained ?_
    rw [htables.counterpart_eq]
    refine List.forall_mem_append.2 ⟨fun u hu => htables.resolve_eq (.inr ?_),
      fun u hu => htables.resolve_eq (h.typeUses t ht u hu)⟩
    exact Module.mem_definedTokens_withRows.2 (.inl (List.mem_flatMap.2 ⟨t, ht, hu⟩))

/-- The module has nothing that an output does not have. -/
theorem ofIdentity_eq (h : Normal m p) : { Module.ofIdentity m.module.identity m.module.kind with
    platform := m.module.platform, references := m.module.references, typeRefs := m.module.typeRefs
    memberRefs := m.module.memberRefs, types := m.module.types, resources := m.module.resources
    attributes := m.module.attributes, entryPoint := m.module.entryPoint } = m.module := by
  have hmvid := h.mvid
  have hsignature := h.signature
  generalize m.module = module at hmvid hsignature ⊢
  cases module
  subst hmvid hsignature
  rfl

/-- A module in normal form is left as it is. -/
theorem run_eq (h : Normal m p) (hp : p.Plain) {log : Log}
    (hplan : ((Plan.build (.alone m) (.ofSet (.alone m)) p).run.run log).1 = .ok plan) (log' : Log) :
    ((run (.alone m) plan p).run.run log').1 = .ok m.module := by
  obtain ⟨sub₀, a, hnumbers, hget⟩ := numberAll_again h.numbered.identified.nodup_defined.of_append_left
    h.inOrder
  rw [← h.slots_eq] at hnumbers
  obtain ⟨rs, sub, log'', hpass, hlayout⟩ := (copied_alone h.numbered h.names hplan).exists_firstPass hp
    (Module.namesApart h.names) (Plan.places_of_build hplan) hnumbers log'
  obtain ⟨attributes, tables, himport, htables, rfl⟩ :=
    (h.importAll_restates (h.restates_start hpass hget) (h.attributes_plan hp hplan)).exists_ok
  have hentry : m.module.entryPoint.mapM (tables.substitution.resolve 0) = .ok m.module.entryPoint := by
    have hanswers : AnswersAll (tables.substitution.resolve 0) id m.module.entryPoint.toList :=
      answersAll_toList fun t ht => htables.resolve_eq (h.entryPointUse t ht)
    rw [mapM_token_answers hanswers, Option.map_id]
    rfl
  refine (run_of_passes hlayout himport (h.writeAll_eq hp htables) hentry).trans (congrArg _ ?_)
  rw [outcome, h.resources_plan hp hplan, htables.references, htables.typeRefs, htables.memberRefs]
  exact h.ofIdentity_eq

end Normal

end Relocation

namespace Relocation

open Shape ImportTables Importing

variable {m : LoadedModule} {p : Policy} {plan : Plan} {out : Module} {rs : List Redirect}
  {sub₀ sub : Substitution} {a : Allocator} {tables : ImportTables}

/-! ## The output is in normal form -/

/-- The first resources of all names have different names. -/
theorem firstResources_firstResources (resources : List Resource) :
    Plan.firstResources (Plan.firstResources resources) = Plan.firstResources resources := by
  have hnodup : ((Plan.firstResources resources).map Resource.name).Nodup :=
    (nodup_map_firsts Resource.name [] resources).1.sublist (List.filter_sublist.map _)
  rw [Plan.firstResources, firsts_eq_self.2 ⟨fun _ _ => List.not_mem_nil, hnodup⟩, Plan.firstResources,
    List.filter_filter]
  simp

namespace Renumbered

variable (h : Renumbered m p plan out rs sub₀ sub a tables)

include h

/-- An attribute that was planned is seen in the output as it was. -/
theorem content_eq (hnamed : m.module.Named) {x : PlannedAttribute × NamedAttribute}
    (hx : x ∈ Plan.keptAttributes (.alone m) p) {b : Attribute}
    (hb : Attributed (.ofSet (.alone m) p) tables x.1 b) :
    NamedAttribute.content ⟨out.typeNameOrToken b.type, b⟩ = x.2.content := by
  obtain ⟨⟨named, i⟩, hplace, rfl⟩ := List.mem_map.1 ((accept_sublist _ _ _).subset hx)
  have hentry := List.mk_mem_zipIdx_iff_getElem?.1 hplace
  obtain ⟨m', c, hm', hc, hsame, hresolve⟩ := hb
  obtain rfl : m.module = m' := Option.some.inj hm'
  have hget : (Plan.namedAttributes m.module)[i]? = some ⟨m.module.typeNameOrToken c.type, c⟩ := by
    rw [Plan.namedAttributes, List.getElem?_map]
    exact congrArg _ hc
  obtain rfl := Option.some.inj (hentry.symm.trans hget)
  have hname := h.name_eq (hresolve (ModuleSet.isInput_of_getElem? (m := m.module) rfl))
    (hnamed.attributes c (List.mem_of_getElem? hc))
  rw [h.wellNumbered.typesNumbered.name_ofModule, h.numbered.typesNumbered.name_ofModule] at hname
  rw [hsame]
  exact Prod.ext hname rfl

/-- The attributes of the output are seen as those that were planned. -/
theorem map_content (hnamed : m.module.Named) (hplanned : plan.attributes =
    (Plan.keptAttributes (.alone m) p).map Prod.fst) : (Plan.namedAttributes out).map NamedAttribute.content =
      (Plan.keptAttributes (.alone m) p).map fun x => x.2.content := by
  have hattributes := h.bound.attributes
  rw [hplanned, List.forall₂_map_left_iff] at hattributes
  have hcontents := (List.forall₂_and_left _ _).2 ⟨fun _ hx => hx, hattributes⟩
  rw [Plan.namedAttributes, List.map_map, ← List.forall₂_eq_eq_eq, List.forall₂_map_left_iff,
    List.forall₂_map_right_iff]
  exact hcontents.flip.imp fun b x hb => h.content_eq hnamed hb.1 hb.2

theorem normal (hp : p.Plain) (hnames : (m.module.walk.map Prod.snd).Nodup) (hnamed : m.module.Named)
    {log : Log} (hplan : ((Plan.build (.alone m) (.ofSet (.alone m)) p).run.run log).1 = .ok plan)
    (path : Path) : Normal ⟨path, out⟩ p := by
  obtain ⟨hresources, hplanned⟩ := Plan.build_contents hp hplan
  exact {
    numbered := h.wellNumbered
    names := by
      rw [h.walk_eq, List.map_map]
      exact hnames
    inOrder := h.writtenOut.inOrder
    reduced := h.reduced hp hnamed path
    references := h.references_out hp hnamed path
    typeUses := h.typeUses
    attributeUses := fun b hb => h.names_of_names (h.attributeUses b hb)
    entryPointUse := fun t ht => h.names_of_names (h.entryPointUse t ht)
    attributes := by
      rw [h.repeats_eq path, allFit_iff]
      dsimp only
      rw [h.map_content hnamed hplanned]
      exact allFit_iff.1 (Plan.allFit_keptAttributes _ _)
    resources := by
      dsimp only
      rw [h.resources, hresources, firstResources_firstResources]
    mvid := h.mvid
    signature := h.signature }

end Renumbered

/-! ## The second relocation -/

/-- A relocation of a module by itself is idempotent: its output has a plan, and the relocation by this plan
leaves it as it is. The tokens that show in names are those of types. -/
theorem run_idempotent (hp : p.Plain) (hm : m.module.WellNumbered)
    (hnames : (m.module.walk.map Prod.snd).Nodup) (hnamed : m.module.Named) {log log' : Log}
    (hplan : ((Plan.build (.alone m) (.ofSet (.alone m)) p).run.run log).1 = .ok plan)
    (hrun : ((run (.alone m) plan p).run.run log').1 = .ok out) (path : Path) (log₁ log₂ : Log) :
    ∃ plan', ((Plan.build (.alone ⟨path, out⟩) (.ofSet (.alone ⟨path, out⟩)) p).run.run log₁).1 = .ok plan' ∧
      ((run (.alone ⟨path, out⟩) plan' p).run.run log₂).1 = .ok out := by
  obtain ⟨rs, sub₀, sub, a, tables, hrenumbered⟩ := run_renumbers hp hm hnames hplan hrun
  have hnormal := hrenumbered.normal hp hnames hnamed hplan path
  have hkeeps := Plan.primaryKeeps_alone (Module.nodup_qualifiedNames hnormal.names) p
  obtain ⟨plan', hplan'⟩ := hkeeps.exists_build log₁
  exact ⟨plan', hplan', hnormal.run_eq hp hplan' log₂⟩

theorem run_idempotent_boxAlone : ∃ out,
    ((run (.alone boxAlone) boxAlonePlan plainPolicy).run.run []).1 = .ok out ∧
    ∃ plan', ((Plan.build (.alone ⟨⟨"again.dll"⟩, out⟩) (.ofSet (.alone ⟨⟨"again.dll"⟩, out⟩))
        plainPolicy).run.run []).1 = .ok plan' ∧
      ((run (.alone ⟨⟨"again.dll"⟩, out⟩) plan' plainPolicy).run.run []).1 = .ok out := by
  have hplan : ((Plan.build (.alone boxAlone) (.ofSet (.alone boxAlone)) plainPolicy).run.run []).1 =
      .ok boxAlonePlan := by decide +kernel
  have hok : ((run (.alone boxAlone) boxAlonePlan plainPolicy).run.run []).1.isOk := by decide +kernel
  obtain ⟨out, hout⟩ := exists_eq_ok hok
  exact ⟨out, hout, run_idempotent ⟨rfl, rfl, rfl, rfl⟩ (by decide) (by decide +kernel) (by decide) hplan
    hout _ [] []⟩

/-! ## References to one constructor -/

/-- A reference to the constructor of the object type of another module. -/
def constructorRef (token : Token) : MemberRef :=
  ⟨token, ⟨0x01000001⟩, ".ctor", .method ⟨true, 0, .primitive .void, []⟩⟩

/-- A module that declares nothing and has attributes whose types are given by references. -/
def attributedModule (memberRefs : List MemberRef) (types : List Token) : Module :=
  { Module.ofIdentity (.ofName "A" ⟨1, 0, 0, 0⟩) .dll with
    references := [.ofName "core" ⟨4, 0, 0, 0⟩]
    typeRefs := [⟨⟨0x01000001⟩, .reference 0, "System", "Object"⟩]
    memberRefs
    attributes := types.map fun type => ⟨type, [], []⟩ }

/-- Two attributes with types that are told apart by their rows only, as both are references to one
constructor. -/
def twins : LoadedModule :=
  ⟨⟨"A.dll"⟩, attributedModule [constructorRef ⟨0x0A000001⟩, constructorRef ⟨0x0A000002⟩]
    [⟨0x0A000001⟩, ⟨0x0A000002⟩]⟩

/-- The output for them, where both have the same type. -/
def mergedTwins : LoadedModule :=
  ⟨⟨"A.dll"⟩, attributedModule [constructorRef ⟨0x0A000001⟩] [⟨0x0A000001⟩, ⟨0x0A000001⟩]⟩

/-- The first relocation keeps both attributes, the second drops one of them. -/
theorem run_drops_twin : twins.module.WellNumbered ∧ (twins.module.walk.map Prod.snd).Nodup ∧
    ∃ plan plan' out, ((Plan.build (.alone twins) (.ofSet (.alone twins)) plainPolicy).run.run []).1 = .ok plan ∧
      ((run (.alone twins) plan plainPolicy).run.run []).1 = .ok mergedTwins.module ∧
      ((Plan.build (.alone mergedTwins) (.ofSet (.alone mergedTwins)) plainPolicy).run.run []).1 = .ok plan' ∧
      ((run (.alone mergedTwins) plan' plainPolicy).run.run []).1 = .ok out ∧ out ≠ mergedTwins.module := by
  let planned (count : Nat) : Plan :=
    { placements := [], resources := [], attributes := (List.range count).map fun i => ⟨.input 0, i⟩
      renames := [], hidden := 0 }
  refine ⟨by decide, by decide, planned 2, planned 1, attributedModule [constructorRef ⟨0x0A000001⟩]
    [⟨0x0A000001⟩], by decide +kernel, rfl, by decide +kernel, rfl, fun h => ?_⟩
  exact absurd (congrArg (fun m => m.attributes.length) h) (by decide)

end Relocation

end ModuleLinker
