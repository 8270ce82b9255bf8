import ModuleLinker.Proofs.Plan.Attributes
import ModuleLinker.Proofs.Plan.Placement
import ModuleLinker.Proofs.Traversal

namespace ModuleLinker

/-! # Resources and attributes of a plan

Unless more is asked for, of the resources of one name the first one is kept, and the attributes are
those of the primary module that can stand beside each other.
-/

/-- A policy under which nothing is dropped that a merge would keep and nothing is kept that it would
drop. -/
structure Policy.Plain (p : Policy) : Prop where
  drops : p.options.droppedAttributes = []
  copies : p.options.copyAttributes = false
  merges : p.options.mergeLinkerMetadata = false
  duplicates : p.options.allowDuplicateResources = false

theorem Policy.Plain.drops_eq {p : Policy} (hp : p.Plain) (name : String) : p.drops name = false := by
  rw [Policy.drops, hp.drops]
  rfl

/-! ## First elements -/

section

variable {κ : Type} [DecidableEq κ] {key : α → κ} {xs : List α}

/-- Where no element is repeated, those that are found under their keys are the first ones with each
key. -/
theorem filter_find?_eq_firsts {p : α → Bool} (hnodup : xs.Nodup)
    (hp : ∀ x ∈ xs, p x ↔ xs.find? (fun y => key y == key x) = some x) :
    xs.filter p = firsts key [] xs := by
  induction xs using List.reverseRecOn with
  | nil => rfl
  | append_singleton xs x ih =>
    obtain ⟨hxs, -, hdisjoint⟩ := List.nodup_append.1 hnodup
    have hnew : x ∉ xs := fun hmem => hdisjoint x hmem x List.mem_cons_self rfl
    -- what is found for an element before the last one does not depend on the last one
    have hbefore : ∀ y ∈ xs, p y ↔ xs.find? (fun z => key z == key y) = some y := by
      intro y hy
      have hsome : (xs.find? fun z => key z == key y).isSome :=
        List.find?_isSome.2 ⟨y, hy, beq_self_eq_true (key y)⟩
      rw [hp y (List.mem_append_left _ hy), List.find?_append, Option.or_of_isSome hsome]
    have hlast : p x ↔ key x ∉ xs.map key := by
      rw [hp x (List.mem_append_right _ List.mem_cons_self), List.find?_append]
      rcases hfind : xs.find? (fun z => key z == key x) with _ | y
      · have hnone : key x ∉ xs.map key := by
          intro hmem
          obtain ⟨y, hy, heq⟩ := List.mem_map.1 hmem
          exact List.find?_eq_none.1 hfind y hy (beq_iff_eq.2 heq)
        simp [hnone]
      · have hy := List.mem_of_find?_eq_some hfind
        have heq : key y = key x := by simpa using List.find?_some hfind
        rw [Option.some_or]
        refine iff_of_false ?_ (not_not.2 (heq ▸ List.mem_map_of_mem hy))
        intro hsame
        exact hnew (Option.some.inj hsame ▸ hy)
    rw [List.filter_append, ih hxs hbefore, firsts_append_singleton, List.nil_append]
    by_cases hx : key x ∈ xs.map key
    · have hdropped : p x = false := by
        rw [← Bool.not_eq_true]
        exact fun h => hlast.1 h hx
      rw [if_pos hx, List.filter_singleton, hdropped, cond_false, List.append_nil]
    · rw [if_neg hx, List.filter_singleton, hlast.2 hx, cond_true]

/-- Choosing elements and then changing them can be done in one go. -/
theorem filterMap_ite {f : α → β} (p : α → Bool) (xs : List α) :
    xs.filterMap (fun x => if p x then some (f x) else none) = (xs.filter p).map f := by
  induction xs with
  | nil => rfl
  | cons x xs ih =>
    rw [List.filterMap_cons, List.filter_cons]
    split
    case h_1 hnone =>
      rw [ite_eq_right_iff] at hnone
      rw [if_neg (fun h => nomatch hnone h), ih]
    case h_2 y hsome =>
      obtain ⟨hx, heq⟩ := Option.ite_none_right_eq_some.1 hsome
      rw [if_pos hx, List.map_cons, Option.some.inj heq, ih]

end

namespace Plan

variable {set : ModuleSet} {p : Policy}

/-! ## Resources -/

/-- The first resource of each name, without a list of modules. -/
def firstResources (resources : List Resource) : List Resource :=
  (firsts Resource.name [] resources).filter (·.name != Manifest.resourceName)

/-- The resources of the inputs with their modules' names and their places. -/
def resourcePlaces (s : ModuleSet) : List (String × Origin × Resource) :=
  s.inputs.zipIdx.flatMap fun (m, i) => m.resources.zipIdx.map fun (r, j) => (m.name, ⟨i, j⟩, r)

theorem resources_resourcePlaces (s : ModuleSet) :
    (resourcePlaces s).map (·.2.2) = s.inputs.flatMap Module.resources := by
  have hmodules : s.inputs.flatMap Module.resources =
      s.inputs.zipIdx.flatMap fun (m, _) => m.resources := by
    conv_lhs => rw [← List.zipIdx_map_fst 0 s.inputs, List.flatMap_map]
  rw [resourcePlaces, List.map_flatMap, hmodules]
  refine List.flatMap_congr ?_
  rintro ⟨m, i⟩ -
  dsimp only
  rw [List.map_map]
  exact List.zipIdx_map_fst 0 m.resources

theorem entries_resourcePlaces (s : ModuleSet) : (SymbolTable.ofSet s).resources =
    (resourcePlaces s).map fun x => (x.2.2.name, x.2.1) := by
  have hentries : (SymbolTable.ofSet s).resources =
      SymbolTable.entries s fun m => m.resources.map Resource.name := rfl
  rw [hentries, SymbolTable.entries, resourcePlaces, List.map_flatMap]
  refine List.flatMap_congr ?_
  rintro ⟨m, i⟩ -
  dsimp only
  rw [List.zipIdx_map, List.map_map, List.map_map]
  rfl

theorem nodup_resourcePlaces (s : ModuleSet) : ((resourcePlaces s).map (·.2.1)).Nodup := by
  have hentries : (resourcePlaces s).map (·.2.1) = ((SymbolTable.ofSet s).resources).map Prod.snd := by
    rw [entries_resourcePlaces, List.map_map]
    rfl
  have hordered := SymbolTable.pairwise_entries s fun m => m.resources.map Resource.name
  rw [hentries]
  exact List.pairwise_map.2 (hordered.imp fun h => h.ne)

/-- A resource is kept if it is the first of its name. -/
theorem planResource_answers (hp : p.Plain) {moduleName : String} {origin : Origin} {r : Resource}
    (taken : List String) :
    ((planResource set (.ofSet set) p moduleName origin r).run taken).Answers fun result =>
      result = (if r.name = Manifest.resourceName then none
        else if ((SymbolTable.ofSet set).resourceOrigins r.name).head? = some origin then some r
        else none, taken) := by
  unfold planResource
  split
  case isTrue => exact .pure rfl
  case isFalse =>
    simp only [hp.merges, hp.duplicates, Bool.false_and]
    split
    case isTrue => exact .pure rfl
    case isFalse =>
      intro log
      rfl

/-- Whether a resource is the first of its name. -/
def isFirst (s : ModuleSet) (x : String × Origin × Resource) : Bool :=
  ((SymbolTable.ofSet s).resourceOrigins x.2.2.name).head? == some x.2.1

/-- The first place of a name is that of the first resource with this name. -/
theorem head?_resourceOrigins (s : ModuleSet) (name : String) :
    ((SymbolTable.ofSet s).resourceOrigins name).head? =
      ((resourcePlaces s).find? fun y => y.2.2.name == name).map (·.2.1) := by
  rw [SymbolTable.resourceOrigins, SymbolTable.originsOf, entries_resourcePlaces, List.head?_map,
    List.head?_filter, List.find?_map, Option.map_map]
  rfl

theorem isFirst_iff {s : ModuleSet} {x : String × Origin × Resource} (hx : x ∈ resourcePlaces s) :
    isFirst s x ↔ (resourcePlaces s).find? (fun y => y.2.2.name == x.2.2.name) = some x := by
  rw [isFirst, head?_resourceOrigins, beq_iff_eq]
  constructor
  · intro h
    obtain ⟨y, hy, horigin⟩ := Option.map_eq_some_iff.1 h
    rw [hy, List.inj_on_of_nodup_map (nodup_resourcePlaces s) (List.mem_of_find?_eq_some hy) hx horigin]
  · intro h
    rw [h, Option.map_some]

theorem filter_isFirst (s : ModuleSet) : (resourcePlaces s).filter (isFirst s) =
    firsts (fun x => x.2.2.name) [] (resourcePlaces s) :=
  filter_find?_eq_firsts (List.Nodup.of_map _ (nodup_resourcePlaces s)) fun _ hx => isFirst_iff hx

/-- What becomes of a resource. -/
def keptResource? (s : ModuleSet) (x : String × Origin × Resource) : Option Resource :=
  if x.2.2.name = Manifest.resourceName then none
  else if ((SymbolTable.ofSet s).resourceOrigins x.2.2.name).head? = some x.2.1 then some x.2.2
  else none

theorem keptResource?_eq (s : ModuleSet) (x : String × Origin × Resource) : keptResource? s x =
    if x.2.2.name != Manifest.resourceName && isFirst s x then some x.2.2 else none := by
  rw [keptResource?]
  by_cases hname : x.2.2.name = Manifest.resourceName
  · simp [hname]
  · by_cases hfirst : ((SymbolTable.ofSet s).resourceOrigins x.2.2.name).head? = some x.2.1
    · simp [hname, hfirst, isFirst]
    · simp [hname, hfirst, isFirst]

theorem filterMap_keptResource? (s : ModuleSet) : (resourcePlaces s).filterMap (keptResource? s) =
    firstResources (s.inputs.flatMap Module.resources) := by
  have hkept : keptResource? s = fun x =>
      if x.2.2.name != Manifest.resourceName && isFirst s x then some x.2.2 else none :=
    funext (keptResource?_eq s)
  rw [hkept, filterMap_ite, ← List.filter_filter, filter_isFirst, firstResources,
    ← resources_resourcePlaces, ← map_firsts, List.filter_map]
  rfl

/-- The resources of a plan are the first ones of their names. -/
theorem planResources_answers (hp : p.Plain) : (planResources set (.ofSet set) p).Answers
    (· = firstResources (set.inputs.flatMap Module.resources)) := by
  unfold planResources
  dsimp only
  refine .seq (.mapM_state (motive := fun done kept _ => kept = done.map (keptResource? set)) rfl ?_) ?_
  · rintro done ⟨name, origin, r⟩ rest - kept taken rfl log
    rw [planResource_answers hp taken log, List.map_append]
    rfl
  · rintro ⟨_, taken⟩ rfl
    refine .pure ?_
    dsimp only
    rw [List.filterMap_map, Function.id_comp]
    exact filterMap_keptResource? set

/-! ## Attributes -/

/-- The attributes of a module with the names of their types. -/
def namedAttributes (m : Module) : List NamedAttribute :=
  m.attributes.map fun a => ⟨m.typeNameOrToken a.type, a⟩

/-- The places of the attributes of the primary module that are kept. -/
def keptAttributes (s : ModuleSet) (p : Policy) : List (PlannedAttribute × NamedAttribute) :=
  accept (NamedAttribute.standsBeside (NamedAttribute.repeats s p)) (fun x => x.2.content)
    ((namedAttributes s.primary.module).zipIdx.map fun (a, i) => (⟨.input 0, i⟩, a))

theorem allFit_keptAttributes (s : ModuleSet) (p : Policy) :
    AllFit (NamedAttribute.standsBeside (NamedAttribute.repeats s p)) (fun x => x.2.content)
      (keptAttributes s p) :=
  allFit_accept _ _ _

/-- Where all attributes can stand beside those before them, all are kept. -/
theorem keptAttributes_of_allFit {s : ModuleSet} {p : Policy}
    (h : AllFit (NamedAttribute.standsBeside (NamedAttribute.repeats s p)) NamedAttribute.content
      (namedAttributes s.primary.module)) :
    (keptAttributes s p).map Prod.fst = s.primary.module.attributes.zipIdx.map fun x => ⟨.input 0, x.2⟩ := by
  have hzip : (namedAttributes s.primary.module).zipIdx.map Prod.fst = namedAttributes s.primary.module :=
    List.zipIdx_map_fst _ _
  rw [← hzip] at h
  have hkept : keptAttributes s p = _ := accept_eq_self (h.of_map.map fun _ _ => rfl)
  rw [hkept, namedAttributes, List.zipIdx_map, List.map_map, List.map_map]
  rfl

/-- Where nothing is dropped, all attributes of the primary module are offered. -/
theorem offeredAttributes_plain (hp : p.Plain) : offeredAttributes set p =
    (namedAttributes set.primary.module).zipIdx.map fun (a, i) => (⟨.input 0, i⟩, a) := by
  have hmodules : attributeModules set p = [(.input 0, set.primary.module)] := by
    rw [attributeModules, hp.copies, Bool.not_false, if_pos rfl]
  have hundropped (es : KeptAttributes) : es.filter (fun e => !p.drops e.2.name) = es := by
    rw [List.filter_eq_self]
    intro e _
    rw [hp.drops_eq]
    rfl
  rw [offeredAttributes, undropped, hundropped, applications, hmodules, List.flatMap_singleton,
    namedAttributes, List.zipIdx_map, List.map_map, List.map_map]
  rfl

/-- The attributes of a plan are those of the primary module that can stand beside each other. -/
theorem planAttributes_plain (hp : p.Plain) : (planAttributes set (.ofSet set) p).Answers
    (· = (keptAttributes set p).map Prod.fst) := by
  intro log
  rw [planAttributes_eq set p log, offeredAttributes_plain hp]
  rfl

/-! ## Plans -/

theorem build_contents (hp : p.Plain) {plan : Plan} {log : Log}
    (h : ((build set (.ofSet set) p).run.run log).1 = .ok plan) :
    plan.resources = firstResources (set.inputs.flatMap Module.resources) ∧
      plan.attributes = (keptAttributes set p).map Prod.fst :=
  build_answers (planResources_answers hp) (planAttributes_plain hp) h

end Plan

end ModuleLinker
