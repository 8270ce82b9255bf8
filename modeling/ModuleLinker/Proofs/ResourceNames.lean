import ModuleLinker.Merge
import ModuleLinker.Proofs.Plan.Contents
import ModuleLinker.Proofs.Relocation.Output

namespace ModuleLinker

/-! # Names of resources

The resources of a plan have different names: the first one of a name keeps it, and a later one that is
kept gets a name that no resource of the inputs and no resource of the plan has. The list of modules is
added behind them without a look at their names. So its name can be that of a kept duplicate, and then
there is one way only in which this has come about.
-/

namespace Plan

variable {set : ModuleSet} {p : Policy}

/-! ## Fresh names -/

/-- What stands before the name of the resource: the name of its module, with the number if there is
one. -/
def resourceStem (moduleName : String) (n : Nat) : String :=
  if n ≤ 1 then moduleName else moduleName ++ "_" ++ toString n

theorem resourceCandidate_eq (moduleName name : String) (n : Nat) :
    resourceCandidate moduleName name n = resourceStem moduleName n ++ "." ++ name := by
  unfold resourceCandidate resourceStem
  split <;> rfl

/-- The numbers in names tell them apart. -/
theorem eq_of_resourceCandidate_eq {moduleName name : String} {n k : Nat} (hn : 1 ≤ n) (hk : 1 ≤ k)
    (h : resourceCandidate moduleName name n = resourceCandidate moduleName name k) : n = k := by
  have hunmarked (i : Nat) : moduleName ≠ moduleName ++ "_" ++ toString i := by
    intro heq
    have hlength := congrArg String.length heq
    simp only [String.length_append] at hlength
    have hone : "_".length = 1 := rfl
    omega
  rw [resourceCandidate_eq, resourceCandidate_eq, String.append_left_inj, String.append_left_inj] at h
  unfold resourceStem at h
  -- only the first name is without a number
  split at h <;> split at h
  · omega
  · exact absurd h (hunmarked k)
  · exact absurd h.symm (hunmarked n)
  · exact Nat.repr_inj.1 ((String.append_right_inj _).1 h)

/-- The name that `freshResourceName` finds. -/
def freshName (moduleName name : String) (taken : List String) : String :=
  let numbers := List.range' 1 (taken.length + 1)
  let n := (numbers.find? fun n => !taken.contains (resourceCandidate moduleName name n)).getD 1
  resourceCandidate moduleName name n

theorem freshResourceName_run (moduleName name : String) (taken : List String) :
    (freshResourceName moduleName name).run taken =
      pure (freshName moduleName name taken, freshName moduleName name taken :: taken) := rfl

/-- One of the names to try is free, because there is one more of them than there are taken names. -/
theorem exists_free (moduleName name : String) (taken : List String) :
    ∃ n ∈ List.range' 1 (taken.length + 1), resourceCandidate moduleName name n ∉ taken := by
  by_contra hnone
  push Not at hnone
  have hsub : (List.range' 1 (taken.length + 1)).map (resourceCandidate moduleName name) ⊆ taken := by
    intro x hx
    obtain ⟨n, hn, rfl⟩ := List.mem_map.1 hx
    exact hnone n hn
  have hnodup : ((List.range' 1 (taken.length + 1)).map (resourceCandidate moduleName name)).Nodup := by
    refine List.Nodup.map_on ?_ List.nodup_range'
    intro n hn k hk h
    exact eq_of_resourceCandidate_eq (List.left_le_of_mem_range' hn) (List.left_le_of_mem_range' hk) h
  have hlength := (hnodup.subperm hsub).length_le
  rw [List.length_map, List.length_range'] at hlength
  omega

/-- A fresh name is one of the names to try, is not taken, and is the first one unless that is taken. -/
theorem freshName_spec (moduleName name : String) (taken : List String) :
    (∃ n, freshName moduleName name taken = resourceCandidate moduleName name n) ∧
      freshName moduleName name taken ∉ taken ∧
      (resourceCandidate moduleName name 1 ∉ taken →
        freshName moduleName name taken = resourceCandidate moduleName name 1) := by
  obtain ⟨free, hfree, hnot⟩ := exists_free moduleName name taken
  have hsome : ((List.range' 1 (taken.length + 1)).find? fun n =>
      !taken.contains (resourceCandidate moduleName name n)).isSome :=
    List.find?_isSome.2 ⟨free, hfree, by simpa using hnot⟩
  obtain ⟨n, hn⟩ := Option.isSome_iff_exists.1 hsome
  have hname : freshName moduleName name taken = resourceCandidate moduleName name n := by
    unfold freshName
    dsimp only
    rw [hn, Option.getD_some]
  refine ⟨⟨n, hname⟩, ?_, fun hone => ?_⟩
  · rw [hname]
    simpa using List.find?_some hn
  · -- the search starts with the number one
    rw [List.range'_succ, List.find?_cons_of_pos (by simpa using hone), Option.some.injEq] at hn
    rw [hname, ← hn]

/-- Only a resource called `List` of a module called `Repack` can get the name of the list of
modules. -/
theorem resourceCandidate_eq_manifest {moduleName name : String} {n : Nat} :
    resourceCandidate moduleName name n = Manifest.resourceName ↔
      n ≤ 1 ∧ moduleName = "Repack" ∧ name = "List" := by
  constructor
  · intro h
    have hparts : "Repack".toList ++ '.' :: "List".toList =
        (resourceStem moduleName n).toList ++ '.' :: name.toList := by
      have hlist := congrArg String.toList h
      rw [resourceCandidate_eq, String.toList_append, String.toList_append, List.append_assoc] at hlist
      exact hlist.symm
    -- the point that was put before the resource's name is the only one in the name of the list
    obtain ⟨hstem, -, hname⟩ :=
      (List.append_cons_inj_of_notMem (by decide) (by decide)).1 hparts
    have hstem' := String.toList_inj.1 hstem
    have hmark : '_' ∉ (resourceStem moduleName n).toList := by
      rw [← hstem]
      decide
    unfold resourceStem at hstem' hmark
    split at hstem'
    case isTrue hn => exact ⟨hn, hstem'.symm, (String.toList_inj.1 hname).symm⟩
    case isFalse hn =>
      rw [if_neg hn, String.toList_append, String.toList_append] at hmark
      exact absurd (List.mem_append_left _ (List.mem_append_right _ (List.mem_singleton.2 rfl))) hmark
  · rintro ⟨hn, rfl, rfl⟩
    rw [resourceCandidate, if_pos hn]
    rfl

/-! ## One resource -/

/-- What becomes of a resource, and of the names that are taken. -/
inductive ResourceOutcome (set : ModuleSet) (p : Policy) (taken : List String)
    (x : String × Origin × Resource) : Option Resource × List String → Prop where
  /-- It is a list of modules, or its contents are somewhere else, or it is a duplicate. -/
  | dropped (h : x.2.2.name = Manifest.resourceName ∨ Xml.isLinkerMetadata x.2.2.name ∨
      p.options.allowDuplicateResources = false) : ResourceOutcome set p taken x (none, taken)
  /-- It is the first one of its name. -/
  | first (hname : x.2.2.name ≠ Manifest.resourceName) (hfirst : isFirst set x) {r : Resource}
      (hr : r.name = x.2.2.name) : ResourceOutcome set p taken x (some r, taken)
  /-- It is a later one and gets a name of its own. -/
  | duplicate (hname : x.2.2.name ≠ Manifest.resourceName) (hlater : ¬isFirst set x)
      (hkeep : p.options.allowDuplicateResources) {r : Resource}
      (hr : r.name = freshName x.1 x.2.2.name taken) :
      ResourceOutcome set p taken x (some r, freshName x.1 x.2.2.name taken :: taken)

theorem mergeLinkerResource_name (set : ModuleSet) (r : Resource) (origins : List Origin) :
    (mergeLinkerResource set r origins).Answers fun r' => r'.name = r.name := by
  unfold mergeLinkerResource
  split
  all_goals exact .bind fun _ => .pure rfl

theorem planResource_outcome (set : ModuleSet) (p : Policy) (x : String × Origin × Resource)
    (taken : List String) :
    ((planResource set (.ofSet set) p x.1 x.2.1 x.2.2).run taken).Answers
      (ResourceOutcome set p taken x) := by
  unfold planResource
  by_cases hname : x.2.2.name = Manifest.resourceName
  · rw [if_pos hname]
    exact .pure (.dropped (.inl hname))
  rw [if_neg hname]
  dsimp only
  by_cases hfirst : ((SymbolTable.ofSet set).resourceOrigins x.2.2.name).head? = some x.2.1
  · rw [if_pos hfirst]
    have hfirst' : isFirst set x := beq_iff_eq.2 hfirst
    split
    · exact fun log => .first hname hfirst' (mergeLinkerResource_name set x.2.2 _ log)
    · exact .pure (.first hname hfirst' rfl)
  rw [if_neg hfirst]
  have hlater : ¬isFirst set x := fun h => hfirst (beq_iff_eq.1 h)
  by_cases hmerges : (p.options.mergeLinkerMetadata && Xml.isLinkerMetadata x.2.2.name) = true
  · rw [if_pos hmerges]
    exact .pure (.dropped (.inr (.inl (Bool.and_eq_true_iff.1 hmerges).2)))
  rw [if_neg hmerges]
  by_cases hkeep : p.options.allowDuplicateResources
  · rw [if_pos hkeep, StateT.run_bind, freshResourceName_run, pure_bind]
    exact fun log => .duplicate hname hlater hkeep rfl
  · rw [if_neg hkeep]
    rw [Bool.not_eq_true] at hkeep
    exact fun log => .dropped (.inr (.inr hkeep))

/-! ## All resources -/

/-- A kept duplicate that gets the name of the list of modules, unless a resource of the inputs has
it. -/
def SpellsManifest (set : ModuleSet) (p : Policy) (x : String × Origin × Resource) : Prop :=
  p.options.allowDuplicateResources ∧ ¬isFirst set x ∧ x.1 = "Repack" ∧ x.2.2.name = "List"

theorem exists_mem_append_singleton {q : α → Prop} {xs : List α} {x : α} :
    (∃ y ∈ xs ++ [x], q y) ↔ (∃ y ∈ xs, q y) ∨ q x := by
  simp [or_and_right, exists_or]

/-- The names of all resources of the inputs. -/
def givenNames (set : ModuleSet) : List String := (resourcePlaces set).map (·.2.2.name)

/-- The names that the plan has given to the resources `done`, and the names that are taken then. -/
structure ResourcesNamed (set : ModuleSet) (p : Policy) (done : List (String × Origin × Resource))
    (names taken : List String) : Prop where
  nodup : names.Nodup
  /-- Taken are the names of all resources, and those that were given. -/
  mem_taken : ∀ name, name ∈ taken ↔ name ∈ givenNames set ∨ name ∈ names
  /-- A name of the inputs is kept by the first resource that has it. -/
  first : ∀ name ∈ names, name ∈ givenNames set →
    name ≠ Manifest.resourceName ∧ ∃ x ∈ done, isFirst set x ∧ x.2.2.name = name
  manifest : Manifest.resourceName ∈ names ↔
    Manifest.resourceName ∉ givenNames set ∧ ∃ x ∈ done, SpellsManifest set p x

namespace ResourcesNamed

variable {done rest : List (String × Origin × Resource)} {x : String × Origin × Resource}
  {names taken : List String}

theorem start (set : ModuleSet) (p : Policy) : ResourcesNamed set p [] [] (givenNames set) :=
  ⟨List.nodup_nil, by simp, nofun, by simp⟩

/-- Two resources of one name are not both the first one. -/
theorem eq_of_isFirst {x y : String × Origin × Resource} (hx : x ∈ resourcePlaces set)
    (hy : y ∈ resourcePlaces set) (hfx : isFirst set x) (hfy : isFirst set y)
    (hname : x.2.2.name = y.2.2.name) : x = y := by
  have hfound := (isFirst_iff hx).1 hfx
  rw [hname, (isFirst_iff hy).1 hfy] at hfound
  exact (Option.some.inj hfound).symm

/-- Whose name a name of the inputs is, one more resource does not change. -/
theorem first_append (h : ResourcesNamed set p done names taken) (x : String × Origin × Resource)
    {name : String} (hname : name ∈ names) (hgiven : name ∈ givenNames set) :
    name ≠ Manifest.resourceName ∧ ∃ y ∈ done ++ [x], isFirst set y ∧ y.2.2.name = name := by
  obtain ⟨hne, y, hy, hfirst⟩ := h.first name hname hgiven
  exact ⟨hne, y, List.mem_append_left _ hy, hfirst⟩

/-- A resource that gets no name leaves the names as they are; it is none that would get the name of the
list. -/
theorem drop (h : ResourcesNamed set p done names taken) (hspells : ¬SpellsManifest set p x) :
    ResourcesNamed set p (done ++ [x]) names taken := by
  refine ⟨h.nodup, h.mem_taken, fun name hname => h.first_append x hname, ?_⟩
  rw [h.manifest, exists_mem_append_singleton, or_iff_left hspells]

/-- The first resource of a name keeps it, which no other one has been given. -/
theorem keepFirst (h : ResourcesNamed set p done names taken)
    (hplaces : done ++ x :: rest = resourcePlaces set) (hname : x.2.2.name ≠ Manifest.resourceName)
    (hfirst : isFirst set x) : ResourcesNamed set p (done ++ [x]) (names ++ [x.2.2.name]) taken := by
  have hx : x ∈ resourcePlaces set := hplaces ▸ List.mem_append_right _ List.mem_cons_self
  have hgiven : x.2.2.name ∈ givenNames set := List.mem_map_of_mem hx
  have hnodup : (done ++ x :: rest).Nodup := hplaces ▸ List.Nodup.of_map _ (nodup_resourcePlaces set)
  have hnew : x.2.2.name ∉ names := by
    intro hmem
    obtain ⟨-, y, hy, hfirst', heq⟩ := h.first _ hmem hgiven
    have hyplaces : y ∈ resourcePlaces set := hplaces ▸ List.mem_append_left _ hy
    obtain rfl := eq_of_isFirst hyplaces hx hfirst' hfirst heq
    exact (List.nodup_append.1 hnodup).2.2 y hy y List.mem_cons_self rfl
  have hspells : ¬SpellsManifest set p x := fun hspells => hspells.2.1 hfirst
  constructor
  case nodup => exact List.nodup_append_comm.1 (List.nodup_cons.2 ⟨hnew, h.nodup⟩)
  case mem_taken =>
    intro name
    rw [h.mem_taken, List.mem_append, List.mem_singleton]
    constructor
    · exact Or.imp_right .inl
    · rintro (hof | hmem | rfl)
      exacts [.inl hof, .inr hmem, .inl hgiven]
  case first =>
    intro name hmem hof
    rcases List.mem_append.1 hmem with hmem | hmem
    · exact h.first_append x hmem hof
    · obtain rfl := List.mem_singleton.1 hmem
      exact ⟨hname, x, List.mem_append_right _ List.mem_cons_self, hfirst, rfl⟩
  case manifest =>
    rw [List.mem_append, List.mem_singleton, or_iff_left hname.symm, h.manifest,
      exists_mem_append_singleton, or_iff_left hspells]

/-- A later resource of a name gets a name that is free, which is that of the list only if nothing else
can have it. -/
theorem keepDuplicate (h : ResourcesNamed set p done names taken) (hlater : ¬isFirst set x)
    (hkeep : p.options.allowDuplicateResources) :
    ResourcesNamed set p (done ++ [x]) (names ++ [freshName x.1 x.2.2.name taken])
      (freshName x.1 x.2.2.name taken :: taken) := by
  obtain ⟨⟨n, hcandidate⟩, hfree, hone⟩ := freshName_spec x.1 x.2.2.name taken
  rw [h.mem_taken, not_or] at hfree
  constructor
  case nodup => exact List.nodup_append_comm.1 (List.nodup_cons.2 ⟨hfree.2, h.nodup⟩)
  case mem_taken =>
    intro name
    rw [List.mem_cons, h.mem_taken, List.mem_append, List.mem_singleton]
    tauto
  case first =>
    intro name hmem hof
    rcases List.mem_append.1 hmem with hmem | hmem
    · exact h.first_append x hmem hof
    · exact absurd (List.mem_singleton.1 hmem ▸ hof) hfree.1
  case manifest =>
    rw [List.mem_append, List.mem_singleton, h.manifest, exists_mem_append_singleton]
    constructor
    · rintro (⟨hnot, hspells⟩ | heq)
      · exact ⟨hnot, .inl hspells⟩
      · -- the name is that of the list, so the duplicate is the one that can have it
        rw [← heq] at hfree
        rw [hcandidate, eq_comm, resourceCandidate_eq_manifest] at heq
        exact ⟨hfree.1, .inr ⟨hkeep, hlater, heq.2⟩⟩
    · rintro ⟨hnot, hspells | ⟨-, -, hmodule, hlist⟩⟩
      · exact .inl ⟨hnot, hspells⟩
      · by_cases hmem : Manifest.resourceName ∈ names
        · exact .inl (h.manifest.1 hmem)
        · have hmanifest : resourceCandidate x.1 x.2.2.name 1 = Manifest.resourceName :=
            resourceCandidate_eq_manifest.2 ⟨le_rfl, hmodule, hlist⟩
          have hnotTaken : Manifest.resourceName ∉ taken := by
            rw [h.mem_taken]
            exact not_or.2 ⟨hnot, hmem⟩
          rw [hmanifest] at hone
          exact .inr (hone hnotTaken).symm

/-- What becomes of one resource keeps the names apart. -/
theorem step (h : ResourcesNamed set p done names taken) (hplaces : done ++ x :: rest = resourcePlaces set)
    {r : Option Resource × List String} (hr : ResourceOutcome set p taken x r) :
    ResourcesNamed set p (done ++ [x]) (names ++ r.1.toList.map Resource.name) r.2 := by
  cases hr with
  | dropped hdrop =>
    rw [Option.toList_none, List.map_nil, List.append_nil]
    refine h.drop ?_
    -- no dropped resource would be kept under the name of the list
    rintro ⟨hkeep, -, -, hname⟩
    rw [hname] at hdrop
    rcases hdrop with hmanifest | hmetadata | hdrop
    · exact absurd hmanifest (by decide)
    · exact absurd hmetadata (by decide)
    · rw [hdrop] at hkeep
      exact absurd hkeep Bool.false_ne_true
  | first hname hfirst hr' =>
    rw [Option.toList_some, List.map_singleton, hr']
    exact h.keepFirst hplaces hname hfirst
  | duplicate hname hlater hkeep hr' =>
    rw [Option.toList_some, List.map_singleton, hr']
    exact h.keepDuplicate hlater hkeep

end ResourcesNamed

/-! ## Plans -/

/-- The resources stand in the order of their places. -/
theorem pairwise_resourcePlaces (set : ModuleSet) :
    (resourcePlaces set).Pairwise fun x y => x.2.1.Before y.2.1 := by
  have hordered : (SymbolTable.ofSet set).resources.Pairwise fun a b => a.2.Before b.2 :=
    SymbolTable.pairwise_entries set fun m => m.resources.map Resource.name
  rw [entries_resourcePlaces] at hordered
  have hplaces := List.pairwise_map.1 hordered
  exact hplaces

/-- What a search through an ordered list finds stands before all else that it could have found. -/
theorem eq_or_rel_of_find? {rel : α → α → Prop} {q : α → Bool} {xs : List α} (hordered : xs.Pairwise rel)
    {x y : α} (hfind : xs.find? q = some y) (hx : x ∈ xs) (hq : q x) : x = y ∨ rel y x := by
  obtain ⟨-, before, after, rfl, hbefore⟩ := List.find?_eq_some_iff_append.1 hfind
  rcases List.mem_append.1 hx with hmem | hmem
  · exact absurd (hbefore x hmem) (by simp [hq])
  · rw [List.pairwise_append, List.pairwise_cons] at hordered
    exact (List.mem_cons.1 hmem).imp_right (hordered.2.1.1 x)

/-- A resource that is not the first of its name has another one before it. -/
theorem not_isFirst_iff {x : String × Origin × Resource} (hx : x ∈ resourcePlaces set) :
    ¬isFirst set x ↔
      ∃ y ∈ resourcePlaces set, y.2.2.name = x.2.2.name ∧ y.2.1.Before x.2.1 := by
  have hordered := pairwise_resourcePlaces set
  constructor
  · intro hlater
    have hsome : ((resourcePlaces set).find? fun y => y.2.2.name == x.2.2.name).isSome :=
      List.find?_isSome.2 ⟨x, hx, beq_self_eq_true _⟩
    obtain ⟨y, hy⟩ := Option.isSome_iff_exists.1 hsome
    have hname : y.2.2.name = x.2.2.name := by simpa using List.find?_some hy
    rcases eq_or_rel_of_find? hordered hy hx (beq_self_eq_true _) with rfl | hearlier
    · exact absurd ((isFirst_iff hx).2 hy) hlater
    · exact ⟨y, List.mem_of_find?_eq_some hy, hname, hearlier⟩
  · rintro ⟨y, hy, hname, hearlier⟩ hfirst
    rcases eq_or_rel_of_find? hordered ((isFirst_iff hx).1 hfirst) hy (beq_iff_eq.2 hname) with rfl | hlater
    · exact hearlier.ne rfl
    · exact hearlier.asymm hlater

/-- The plan keeps a resource called `List` of a module called `Repack` beside an earlier one of that
name, and no resource of the inputs has the name that it gets. -/
def TakesManifestName (set : ModuleSet) (p : Policy) : Prop :=
  p.options.allowDuplicateResources ∧
    (∀ x ∈ resourcePlaces set, x.2.2.name ≠ Manifest.resourceName) ∧
    ∃ x ∈ resourcePlaces set, x.1 = "Repack" ∧ x.2.2.name = "List" ∧
      ∃ y ∈ resourcePlaces set, y.2.2.name = "List" ∧ y.2.1.Before x.2.1

instance (set : ModuleSet) (p : Policy) : Decidable (TakesManifestName set p) :=
  inferInstanceAs (Decidable (_ ∧ _ ∧ _))

theorem takesManifestName_iff : TakesManifestName set p ↔
    Manifest.resourceName ∉ givenNames set ∧ ∃ x ∈ resourcePlaces set, SpellsManifest set p x := by
  have hgiven : Manifest.resourceName ∉ givenNames set ↔
      ∀ x ∈ resourcePlaces set, x.2.2.name ≠ Manifest.resourceName := by
    simp [givenNames]
  rw [hgiven, TakesManifestName]
  constructor
  · rintro ⟨hkeep, hnot, x, hx, hmodule, hname, y, hy, hyname, hearlier⟩
    have hlater := (not_isFirst_iff hx).2 ⟨y, hy, hyname.trans hname.symm, hearlier⟩
    exact ⟨hnot, x, hx, hkeep, hlater, hmodule, hname⟩
  · rintro ⟨hnot, x, hx, hkeep, hlater, hmodule, hname⟩
    obtain ⟨y, hy, hyname, hearlier⟩ := (not_isFirst_iff hx).1 hlater
    exact ⟨hkeep, hnot, x, hx, hmodule, hname, y, hy, hyname.trans hname, hearlier⟩

/-- The resources of a plan have different names, and that of the list of modules is one of them only
as `TakesManifestName` says. -/
theorem planResources_names (set : ModuleSet) (p : Policy) :
    (planResources set (.ofSet set) p).Answers fun resources =>
      (resources.map Resource.name).Nodup ∧
        (Manifest.resourceName ∈ resources.map Resource.name ↔ TakesManifestName set p) := by
  have hgiven : (SymbolTable.ofSet set).resources.map Prod.fst = givenNames set := by
    rw [entries_resourcePlaces, List.map_map]
    rfl
  unfold planResources
  dsimp only
  rw [hgiven]
  refine .seq (.mapM_state (motive := fun done kept taken =>
    ResourcesNamed set p done ((kept.filterMap id).map Resource.name) taken) (.start set p) ?_) ?_
  · intro done x rest hplaces kept taken h log
    have hstep := h.step hplaces (planResource_outcome set p x taken log)
    have hkept (r : Option Resource) : ((kept ++ [r]).filterMap id).map Resource.name =
        (kept.filterMap id).map Resource.name ++ r.toList.map Resource.name := by
      cases r <;> simp
    rw [hkept]
    exact hstep
  · rintro ⟨kept, taken⟩ h
    exact .pure ⟨h.nodup, h.manifest.trans takesManifestName_iff.symm⟩

end Plan

/-! ## Outputs -/

/-- A linked module is the relocation of a plan that could be made. -/
theorem Merge.link_eq_ok {set : ModuleSet} {p : Policy} {plan : Plan} {m : Module} {log : Log}
    (h : ((link set p).run.run log).1 = .ok (plan, m)) :
    (∃ log, ((Plan.build set (.ofSet set) p).run.run log).1 = .ok plan) ∧
      ∃ log, ((Relocation.run set plan p).run.run log).1 = .ok m := by
  obtain ⟨log', hrun⟩ : ∃ log', (link set p).run.run log = (.ok (plan, m), log') := ⟨_, Prod.ext h rfl⟩
  obtain ⟨_, log₁, -, hrest⟩ := run_bind_eq_ok hrun
  obtain ⟨plan', log₂, hplan, hrest₂⟩ := run_bind_eq_ok hrest
  obtain ⟨m', log₃, hmodule, hrest₃⟩ := run_bind_eq_ok hrest₂
  obtain ⟨_, log₄, -, hpure⟩ := run_bind_eq_ok hrest₃
  cases hpure
  exact ⟨⟨log₁, congrArg Prod.fst hplan⟩, log₂, congrArg Prod.fst hmodule⟩

namespace Emission

variable {set : ModuleSet} {p : Policy} {signer : Option Signer} {plan : Plan} {m out : Module} {log : Log}

theorem name_of_build {modules : List Module} {r : Resource} (h : Manifest.build modules = .ok r) :
    r.name = Manifest.resourceName := by
  obtain ⟨entries, -, hr⟩ := bind_eq_ok.1 h
  cases hr
  rfl

/-- Finishing a module adds the list of modules to its resources, unless that is left out. -/
theorem resources_finish (h : finish set p signer m = .ok out) :
    out.resources.map Resource.name = m.resources.map Resource.name ++
      if p.options.omitManifest then [] else [Manifest.resourceName] := by
  have hplain : (if p.options.keepSymbols then m else m.withoutPoints).resources = m.resources := by
    split <;> rfl
  unfold finish at h
  by_cases homit : p.options.omitManifest
  · rw [if_pos homit] at h
    cases h
    rw [if_pos homit, List.map_append, hplain]
    rfl
  · rw [if_neg homit, bind_eq_ok] at h
    obtain ⟨manifest, hmanifest, h⟩ := h
    obtain ⟨r, hr, rfl⟩ : ∃ r, Manifest.build set.inputs = .ok r ∧ [r] = manifest := by
      rcases hbuild : Manifest.build set.inputs with fault | r
      · rw [hbuild] at hmanifest
        exact nomatch hmanifest
      · rw [hbuild] at hmanifest
        exact ⟨r, rfl, Except.ok.inj hmanifest⟩
    cases h
    rw [if_neg homit, List.map_append, hplain, List.map_singleton, name_of_build hr]

/-- The resources of a finished module have different names unless a duplicate was kept under the name
of the list of modules, and this name is the only one that two of them can have. -/
theorem finish_nodup_resources_iff (hlink : ((Merge.link set p).run.run log).1 = .ok (plan, m))
    (hfinish : finish set p signer m = .ok out) :
    ((out.resources.map Resource.name).Nodup ↔
        p.options.omitManifest ∨ ¬Plan.TakesManifestName set p) ∧
      (p.options.omitManifest = false →
        ((out.resources.map Resource.name).count Manifest.resourceName = 1 ↔
          ¬Plan.TakesManifestName set p)) ∧
      ∀ name ≠ Manifest.resourceName, (out.resources.map Resource.name).count name ≤ 1 := by
  obtain ⟨⟨log₁, hplan⟩, log₂, hrun⟩ := Merge.link_eq_ok hlink
  have hresources : m.resources = plan.resources := by
    obtain ⟨_, _, _, _, _, _, _, _, _, _, _, _, rfl⟩ := Relocation.run_eq_ok hrun
    rfl
  have hattributes : (Plan.planAttributes set (.ofSet set) p).Answers fun _ => True := fun _ => trivial
  obtain ⟨⟨hnodup, hmanifest⟩, -⟩ :=
    Plan.build_answers (Plan.planResources_names set p) hattributes hplan
  rw [← hresources] at hnodup hmanifest
  rw [resources_finish hfinish, ← hmanifest]
  by_cases homit : p.options.omitManifest
  · rw [if_pos homit, List.append_nil]
    refine ⟨iff_of_true hnodup (.inl homit), fun hkeep => ?_, fun name _ => ?_⟩
    · exact absurd (homit.symm.trans hkeep) (by decide)
    · exact List.nodup_iff_count_le_one.1 hnodup name
  · rw [if_neg homit]
    refine ⟨?_, fun _ => ?_, fun name hname => ?_⟩
    · rw [← List.nodup_append_comm, List.singleton_append, List.nodup_cons, or_iff_right homit]
      exact and_iff_left hnodup
    · rw [List.count_append, List.count_singleton_self, Nat.add_eq_right, List.count_eq_zero]
    · rw [List.count_append, List.count_singleton, if_neg (by simpa using hname.symm), Nat.add_zero]
      exact List.nodup_iff_count_le_one.1 hnodup name

/-- A module with a resource called `List`. -/
def listModule (name : String) : Module :=
  { Module.ofIdentity (.ofName name ⟨1, 0, 0, 0⟩) .dll with
    resources := [⟨"List", .exported, [0x31]⟩] }

/-- Two modules that both have one. -/
def lists (second : String) : ModuleSet :=
  { primary := ⟨⟨"first.dll"⟩, listModule "first"⟩
    others := [⟨⟨"second.dll"⟩, listModule second⟩], references := [], attributeSource := none }

/-- A policy that keeps duplicates. -/
def keepingPolicy : Policy :=
  { Relocation.unionPolicy with
    options := { Relocation.unionPolicy.options with allowDuplicateResources := true } }

theorem finish_nodup_resources_iff_lists : ∃ plan m out,
    ((Merge.link (lists "second") keepingPolicy).run.run []).1 = .ok (plan, m) ∧
      finish (lists "second") keepingPolicy none m = .ok out ∧
      (out.resources.map Resource.name).Nodup ∧
      (out.resources.map Resource.name).count Manifest.resourceName = 1 := by
  have hok : ((Merge.link (lists "second") keepingPolicy).run.run []).1.isOk := by decide +kernel
  obtain ⟨⟨plan, m⟩, hlink⟩ := exists_eq_ok hok
  have hfinish : finish (lists "second") keepingPolicy none m = .ok _ := rfl
  obtain ⟨hnodup, hcount, -⟩ := finish_nodup_resources_iff hlink hfinish
  have hfree : ¬Plan.TakesManifestName (lists "second") keepingPolicy := by decide
  exact ⟨plan, m, _, hlink, hfinish, hnodup.2 (.inr hfree), (hcount rfl).2 hfree⟩

/-- In a module called `Repack` a second `List` is kept under the name of the list of modules. -/
theorem finish_repeats_manifest_name : ∃ plan m out,
    ((Merge.link (lists "Repack") keepingPolicy).run.run []).1 = .ok (plan, m) ∧
      finish (lists "Repack") keepingPolicy none m = .ok out ∧
      out.resources.map Resource.name = ["List", Manifest.resourceName, Manifest.resourceName] := by
  have hok : ((Merge.link (lists "Repack") keepingPolicy).run.run []).1.isOk := by decide +kernel
  have hnames : (((Merge.link (lists "Repack") keepingPolicy).run.run []).1.bind fun linked =>
      (finish (lists "Repack") keepingPolicy none linked.2).map fun out =>
        out.resources.map Resource.name) =
      .ok ["List", Manifest.resourceName, Manifest.resourceName] := by
    decide +kernel
  obtain ⟨⟨plan, m⟩, hlink⟩ := exists_eq_ok hok
  rw [hlink] at hnames
  obtain ⟨out, hfinish⟩ : ∃ out, finish (lists "Repack") keepingPolicy none m = .ok out := ⟨_, rfl⟩
  have hnames' : (finish (lists "Repack") keepingPolicy none m).map
      (fun out => out.resources.map Resource.name) = _ := hnames
  rw [hfinish] at hnames'
  exact ⟨plan, m, out, hlink, hfinish, Except.ok.inj hnames'⟩

end Emission

end ModuleLinker
