import ModuleLinker.Proofs.Plan.Notices
import ModuleLinker.Proofs.ResourceNames

namespace ModuleLinker

/-! # What becomes of resources

Every resource of the inputs meets one fate. It is left out, or it is a resource of the plan, with its
own name or under a fresh one; and if it is left out as a duplicate, that is noted once. The plan has the
resources that are kept, in the order of the inputs, and no others.
-/

/-- Whether resources of the name are linker metadata that is merged. -/
def Policy.MergesResource (p : Policy) (name : String) : Prop :=
  p.options.mergeLinkerMetadata ∧ Xml.isLinkerMetadata name

instance (p : Policy) (name : String) : Decidable (p.MergesResource name) :=
  inferInstanceAs (Decidable (_ ∧ _))

namespace Plan

variable {set : ModuleSet} {p : Policy}

/-! ## Fates -/

/-- Another resource of the name stands before. -/
def IsLater (set : ModuleSet) (x : String × Origin × Resource) : Prop :=
  ∃ y ∈ resourcePlaces set, y.2.2.name = x.2.2.name ∧ y.2.1.Before x.2.1

/-- The data of the resources of a name, in order. -/
def dataOf (set : ModuleSet) (name : String) : List Bytes :=
  ((resourcePlaces set).filter (·.2.2.name == name)).map (·.2.2.data)

/-- The data of linker metadata into which that of the later resources of the name is merged, as far as
there are any and all of it can be read. -/
def mergedData (set : ModuleSet) (r : Resource) : Bytes :=
  if 1 < (dataOf set r.name).length then
    (Xml.mergeLinkerDocuments (dataOf set r.name)).toOption.getD r.data
  else r.data

/-- What the plan has in the place of a resource, and the names that are noted as left out. -/
inductive ResourceFate (set : ModuleSet) (p : Policy) (x : String × Origin × Resource) :
    Option Resource × List String → Prop where
  /-- The output gets a list of modules of its own. -/
  | list (hname : x.2.2.name = Manifest.resourceName) : ResourceFate set p x (none, [])
  /-- The first one of a name stays as it is. -/
  | first (hname : x.2.2.name ≠ Manifest.resourceName) (hfirst : ¬IsLater set x)
      (hmerges : ¬p.MergesResource x.2.2.name) : ResourceFate set p x (some x.2.2, [])
  /-- The first linker metadata of a name has the contents of all of it. -/
  | merged (hname : x.2.2.name ≠ Manifest.resourceName) (hfirst : ¬IsLater set x)
      (hmerges : p.MergesResource x.2.2.name) :
      ResourceFate set p x (some { x.2.2 with data := mergedData set x.2.2 }, [])
  /-- The contents of later linker metadata are part of the first one of its name. -/
  | contained (hname : x.2.2.name ≠ Manifest.resourceName) (hlater : IsLater set x)
      (hmerges : p.MergesResource x.2.2.name) : ResourceFate set p x (none, [])
  /-- A later one is kept under a name that no resource of the inputs has. -/
  | renamed (hname : x.2.2.name ≠ Manifest.resourceName) (hlater : IsLater set x)
      (hmerges : ¬p.MergesResource x.2.2.name) (hkeep : p.options.allowDuplicateResources)
      {name : String} (hfresh : name ∉ givenNames set) :
      ResourceFate set p x (some { x.2.2 with name }, [])
  /-- A later one is left out, which is noted. -/
  | ignored (hname : x.2.2.name ≠ Manifest.resourceName) (hlater : IsLater set x)
      (hmerges : ¬p.MergesResource x.2.2.name) (hkeep : p.options.allowDuplicateResources = false) :
      ResourceFate set p x (none, [x.2.2.name])

/-! ## Places -/

theorem isFirst_iff_not_isLater {x : String × Origin × Resource} (hx : x ∈ resourcePlaces set) :
    isFirst set x ↔ ¬IsLater set x := by
  rw [← not_iff_not, not_isFirst_iff hx, not_not]
  exact Iff.rfl

/-- A resource is where its place says. -/
theorem getElem?_of_mem_resourcePlaces {x : String × Origin × Resource} (hx : x ∈ resourcePlaces set) :
    ∃ m, set.inputs[x.2.1.module]? = some m ∧ m.resources[x.2.1.index]? = some x.2.2 := by
  obtain ⟨⟨m, i⟩, hm, hx⟩ := List.mem_flatMap.1 hx
  obtain ⟨⟨r, j⟩, hr, rfl⟩ := List.mem_map.1 hx
  exact ⟨m, List.mk_mem_zipIdx_iff_getElem?.1 hm, List.mk_mem_zipIdx_iff_getElem?.1 hr⟩

theorem resourceOrigins_eq (set : ModuleSet) (name : String) :
    (SymbolTable.ofSet set).resourceOrigins name =
      ((resourcePlaces set).filter (·.2.2.name == name)).map (·.2.1) := by
  rw [SymbolTable.resourceOrigins, SymbolTable.originsOf, entries_resourcePlaces, List.filter_map,
    List.map_map]
  rfl

/-- The data at the places of a name is that of its resources. -/
theorem resourceData_resourceOrigins (set : ModuleSet) (name : String) :
    resourceData set ((SymbolTable.ofSet set).resourceOrigins name) = dataOf set name := by
  rw [resourceOrigins_eq, resourceData, List.filterMap_map, dataOf, ← List.filterMap_eq_map]
  refine List.filterMap_congr fun x hx => ?_
  obtain ⟨m, hm, hr⟩ := getElem?_of_mem_resourcePlaces (List.mem_of_mem_filter hx)
  simp [hm, hr]

theorem length_resourceOrigins (set : ModuleSet) (name : String) :
    ((SymbolTable.ofSet set).resourceOrigins name).length = (dataOf set name).length := by
  rw [resourceOrigins_eq, dataOf, List.length_map, List.length_map]

/-! ## One resource -/

theorem mergeLinkerResource_adds (set : ModuleSet) (r : Resource) :
    (mergeLinkerResource set r ((SymbolTable.ofSet set).resourceOrigins r.name)).Adds
      fun r' added => r' =
        { r with data := (Xml.mergeLinkerDocuments (dataOf set r.name)).toOption.getD r.data } ∧
        added.duplicates "resource" = [] := by
  unfold mergeLinkerResource
  rw [resourceData_resourceOrigins]
  rcases Xml.mergeLinkerDocuments (dataOf set r.name) with fault | data
  case error => exact fun _ => ⟨[_], rfl, rfl, rfl⟩
  case ok => exact fun _ => ⟨[_], rfl, rfl, rfl⟩

/-- A resource meets its fate, whatever names are taken beside those of the inputs. -/
theorem planResource_adds {x : String × Origin × Resource} (hx : x ∈ resourcePlaces set)
    {taken : List String} (htaken : givenNames set ⊆ taken) :
    ((planResource set (.ofSet set) p x.1 x.2.1 x.2.2).run taken).Adds fun r added =>
      givenNames set ⊆ r.2 ∧ ResourceFate set p x (r.1, added.duplicates "resource") := by
  have hmergesIff : (p.options.mergeLinkerMetadata && Xml.isLinkerMetadata x.2.2.name) = true ↔
      p.MergesResource x.2.2.name := Bool.and_eq_true_iff
  unfold planResource
  by_cases hname : x.2.2.name = Manifest.resourceName
  · rw [if_pos hname]
    exact .pure ⟨htaken, .list hname⟩
  rw [if_neg hname]
  dsimp only
  by_cases hfirst : ((SymbolTable.ofSet set).resourceOrigins x.2.2.name).head? = some x.2.1
  · rw [if_pos hfirst, length_resourceOrigins]
    have hfirst' : ¬IsLater set x := (isFirst_iff_not_isLater hx).1 (beq_iff_eq.2 hfirst)
    by_cases hmerges : p.MergesResource x.2.2.name
    · rw [hmergesIff.2 hmerges, Bool.true_and]
      have hfate := ResourceFate.merged hname hfirst' hmerges
      by_cases hseveral : 1 < (dataOf set x.2.2.name).length
      · rw [if_pos (decide_eq_true hseveral)]
        rw [mergedData, if_pos hseveral] at hfate
        refine .bind (f := fun r => Pure.pure (some r, taken)) (mergeLinkerResource_adds set x.2.2) ?_
        rintro _ added ⟨rfl, hadded⟩
        refine .pure ⟨htaken, ?_⟩
        rw [List.append_nil, hadded]
        exact hfate
      · rw [if_neg (by simpa using hseveral)]
        rw [mergedData, if_neg hseveral] at hfate
        exact .pure ⟨htaken, hfate⟩
    · rw [Bool.eq_false_iff.2 (mt hmergesIff.1 hmerges), Bool.false_and]
      exact .pure ⟨htaken, .first hname hfirst' hmerges⟩
  rw [if_neg hfirst]
  have hlater : IsLater set x := (not_isFirst_iff hx).1 fun h => hfirst (beq_iff_eq.1 h)
  by_cases hmerges : p.MergesResource x.2.2.name
  · rw [if_pos (hmergesIff.2 hmerges)]
    exact .pure ⟨htaken, .contained hname hlater hmerges⟩
  rw [if_neg (mt hmergesIff.1 hmerges)]
  by_cases hkeep : p.options.allowDuplicateResources
  · rw [if_pos hkeep, StateT.run_bind, freshResourceName_run, pure_bind]
    obtain ⟨-, hfree, -⟩ := freshName_spec x.1 x.2.2.name taken
    have hfresh : freshName x.1 x.2.2.name taken ∉ givenNames set := fun hmem => hfree (htaken hmem)
    exact fun _ => ⟨[_], rfl, List.subset_cons_of_subset _ htaken,
      .renamed hname hlater hmerges hkeep hfresh⟩
  · rw [if_neg hkeep]
    exact fun _ => ⟨[_], rfl, htaken, .ignored hname hlater hmerges (Bool.eq_false_iff.2 hkeep)⟩

/-! ## All resources -/

/-- The resources that are planned are those that some resource of the inputs becomes. -/
theorem planResources_adds (set : ModuleSet) (p : Policy) :
    (planResources set (.ofSet set) p).Adds fun resources added =>
      ∃ fates, List.Forall₂ (ResourceFate set p) (resourcePlaces set) fates ∧
        resources = fates.filterMap Prod.fst ∧ added.duplicates "resource" = fates.flatMap Prod.snd := by
  have hgiven : (SymbolTable.ofSet set).resources.map Prod.fst = givenNames set := by
    rw [entries_resourcePlaces, List.map_map]
    rfl
  unfold planResources
  dsimp only
  rw [hgiven]
  refine .bind (.mapM_state (motive := fun done kept taken noted => givenNames set ⊆ taken ∧
    ∃ fates, List.Forall₂ (ResourceFate set p) done fates ∧ kept = fates.map Prod.fst ∧
      noted.duplicates "resource" = fates.flatMap Prod.snd) ?_ ?_) ?_
  · exact ⟨List.Subset.refl _, [], .nil, rfl, rfl⟩
  · rintro done x rest hplaces _ taken noted ⟨htaken, fates, hfates, rfl, hnoted⟩
    have hx : x ∈ resourcePlaces set := by
      rw [resourcePlaces, ← hplaces]
      exact List.mem_append_right _ List.mem_cons_self
    refine (planResource_adds hx htaken).mono fun r added hr => ?_
    obtain ⟨htaken', hfate⟩ := hr
    refine ⟨htaken', fates ++ [(r.1, added.duplicates "resource")], ?_, ?_, ?_⟩
    · exact List.rel_append hfates (.cons hfate .nil)
    · rw [List.map_append, List.map_singleton]
    · rw [Log.duplicates_append, hnoted, List.flatMap_append, List.flatMap_singleton]
  · rintro ⟨_, taken⟩ added ⟨-, fates, hfates, rfl, hadded⟩
    refine .pure ⟨fates, hfates, ?_, ?_⟩
    · dsimp only
      rw [List.filterMap_map, Function.id_comp]
    · rw [List.append_nil, hadded]

/-! ## Plans -/

/-- What is not a resource that was left out. -/
theorem duplicates_resource_eq_nil {added : Log}
    (h : ∀ n ∈ added, n.OfPlacing ∨ n.OfAttributes) : added.duplicates "resource" = [] := by
  refine Log.duplicates_eq_nil fun n hn name heq => ?_
  obtain (⟨_, h⟩ | ⟨_, h⟩) | ⟨_, h⟩ | ⟨_, h⟩ := h n hn
  all_goals
    rw [h] at heq
    revert heq
    simp

/-- Each resource of the inputs meets its fate: a plan has those that are kept, in the order of the
inputs and under different names, and no others; and of all that is noted in making it, those that are
noted as left out are the ignored ones, each once. -/
theorem build_resources {plan : Plan} {log log' : Log}
    (h : (build set (.ofSet set) p).run.run log = (.ok plan, log')) :
    ∃ fates added, List.Forall₂ (ResourceFate set p) (resourcePlaces set) fates ∧
      plan.resources = fates.filterMap Prod.fst ∧ (plan.resources.map Resource.name).Nodup ∧
      log' = log ++ added ∧ added.duplicates "resource" = fates.flatMap Prod.snd := by
  have hadds : (build set (.ofSet set) p).run.Adds fun result added => ∀ plan, result = .ok plan →
      ∃ fates, List.Forall₂ (ResourceFate set p) (resourcePlaces set) fates ∧
        plan.resources = fates.filterMap Prod.fst ∧
        added.duplicates "resource" = fates.flatMap Prod.snd := by
    unfold build
    refine Merging.adds_lift (mergeSymbols_tells _ p) fun merged added₁ h₁ => ?_
    refine Merging.adds_lift (placeTypes_tells set _ p merged _) fun ⟨placed, _⟩ added₂ h₂ => ?_
    dsimp only
    rcases placed with fault | placed
    · exact .pure nofun
    rw [Merging.ofExcept_ok_bind]
    refine Merging.adds_lift (planResources_adds set p) fun resources added₃ h₃ => ?_
    refine Merging.adds_lift (planAttributes_tells set _ p) fun attributes added₄ h₄ => .pure ?_
    rintro _ heq
    obtain rfl := Except.ok.inj heq
    obtain ⟨fates, hfates, hresources, hnoted⟩ := h₃
    refine ⟨fates, hfates, hresources, ?_⟩
    have hmerging := duplicates_resource_eq_nil fun n hn => .inl (.inl (h₁ n hn))
    have hplacing := duplicates_resource_eq_nil fun n hn => .inl (h₂ n hn)
    have hattributes := duplicates_resource_eq_nil fun n hn => .inr (h₄ n hn)
    simp only [Log.duplicates_append, hmerging, hplacing, hattributes, hnoted, List.nil_append,
      List.append_nil]
  obtain ⟨added, hlog, hfates⟩ := hadds log
  obtain ⟨fates, hfates, hresources, hnoted⟩ := hfates plan (congrArg Prod.fst h)
  have hattributes : (planAttributes set (.ofSet set) p).Answers fun _ => True := fun _ => trivial
  obtain ⟨⟨hnodup, -⟩, -⟩ := build_answers (planResources_names set p) hattributes (congrArg Prod.fst h)
  exact ⟨fates, added, hfates, hresources, hnodup, (congrArg Prod.snd h).symm.trans hlog, hnoted⟩

/-- A module with a resource of each name. -/
def bag (name : String) (resources : List String) : Module :=
  { Module.ofIdentity (.ofName name ⟨1, 0, 0, 0⟩) .dll with
    resources := resources.map fun r => ⟨r, .exported, [0x31]⟩ }

/-- Two modules that share the name of a resource; the first name to try for the later one is taken. -/
def bags : ModuleSet :=
  { primary := ⟨⟨"first.dll"⟩, bag "first" ["data"]⟩
    others := [⟨⟨"second.dll"⟩, bag "second" ["data", "second.data"]⟩]
    references := [], attributeSource := none }

theorem build_resources_bags : ∃ plan log',
    (build bags (.ofSet bags) Emission.keepingPolicy).run.run [] = (.ok plan, log') ∧
      plan.resources.map Resource.name = ["data", "second_2.data", "second.data"] ∧
      ∃ fates added, List.Forall₂ (ResourceFate bags Emission.keepingPolicy) (resourcePlaces bags) fates ∧
        plan.resources = fates.filterMap Prod.fst ∧ (plan.resources.map Resource.name).Nodup ∧
        log' = [] ++ added ∧ Log.duplicates added "resource" = fates.flatMap Prod.snd := by
  have hok : ((build bags (.ofSet bags) Emission.keepingPolicy).run.run []).1.isOk := by decide +kernel
  have hnames : (((build bags (.ofSet bags) Emission.keepingPolicy).run.run []).1.map fun plan =>
      plan.resources.map Resource.name) = .ok ["data", "second_2.data", "second.data"] := by
    decide +kernel
  obtain ⟨plan, hplan⟩ := exists_eq_ok hok
  rw [hplan] at hnames
  have hrun : (build bags (.ofSet bags) Emission.keepingPolicy).run.run [] = (.ok plan, _) :=
    Prod.ext hplan rfl
  exact ⟨plan, _, hrun, Except.ok.inj hnames, build_resources hrun⟩

end Plan

end ModuleLinker
