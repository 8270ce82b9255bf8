import Mathlib.Data.List.Flatten
import ModuleLinker.Plan.Build
import ModuleLinker.Proofs.AttributeChoice

namespace ModuleLinker

/-! # Planned attributes

The attributes of a plan are attributes of the modules that the output takes them from, each with its
place there. They are chosen as all attributes are; that some of them are taken without a look at those
before them makes no difference, because these are the only ones of their types.
-/

namespace Plan

variable {set : ModuleSet} {table : SymbolTable} {p : Policy}

theorem source?_of_mem_attributeModules {source : AttributeSource} {m : Module}
    (h : (source, m) ∈ attributeModules set p) : set.source? (source.number set) = some m := by
  unfold attributeModules at h
  split at h
  case isTrue =>
    obtain ⟨rfl, rfl⟩ := Prod.mk.inj (List.mem_singleton.1 h)
    rfl
  case isFalse =>
    split at h
    case h_1 loaded hloaded =>
      obtain ⟨rfl, rfl⟩ := Prod.mk.inj (List.mem_singleton.1 h)
      rw [AttributeSource.number, ModuleSet.source?, List.getElem?_eq_none (Nat.le_refl _), hloaded]
      rfl
    case h_2 =>
      obtain ⟨⟨m', i⟩, hm, heq⟩ := List.mem_map.1 h
      obtain ⟨rfl, rfl⟩ := Prod.mk.inj heq
      rw [AttributeSource.number, ModuleSet.source?, List.mk_mem_zipIdx_iff_getElem?.1 hm,
        Option.some_or]

/-- The attributes of the modules that the output takes its attributes from, with their modules and
places. -/
def applications (set : ModuleSet) (p : Policy) : List (Module × PlannedAttribute × Attribute) :=
  (attributeModules set p).flatMap fun (source, m) =>
    m.attributes.zipIdx.map fun (a, i) => (m, PlannedAttribute.mk source i, a)

theorem mem_applications {e : Module × PlannedAttribute × Attribute} (h : e ∈ applications set p) :
    set.source? (e.2.1.source.number set) = some e.1 ∧ e.1.attributes[e.2.1.index]? = some e.2.2 := by
  obtain ⟨⟨source, m⟩, hmodule, hplace⟩ := List.mem_flatMap.1 h
  obtain ⟨⟨a, i⟩, ha, rfl⟩ := List.mem_map.1 hplace
  exact ⟨source?_of_mem_attributeModules hmodule, List.mk_mem_zipIdx_iff_getElem?.1 ha⟩

/-- An attribute with its place and the name of its type. -/
def naming (e : Module × PlannedAttribute × Attribute) : PlannedAttribute × NamedAttribute :=
  (e.2.1, ⟨e.1.typeNameOrToken e.2.2.type, e.2.2⟩)

/-- An attribute that is not dropped is planned if it is the only one of its type or can stand beside
those that are. -/
theorem planAttribute_eq (e : Module × PlannedAttribute × Attribute) (kept : KeptAttributes) :
    (planAttribute set table p e.1 e.2.1 kept e.2.2).Answers (· =
      if p.drops (naming e).2.name then kept
      else if isOnly table e.2.1.source (naming e).2.name ||
        NamedAttribute.standsBeside (NamedAttribute.repeats set p) (kept.map fun e => e.2.content)
          (naming e).2.content
      then kept ++ [naming e]
      else kept) := by
  unfold planAttribute naming
  dsimp only
  split
  case isTrue => exact .bind fun _ => .pure rfl
  case isFalse =>
    split
    case isTrue honly =>
      refine .pure ?_
      rw [honly, Bool.true_or, if_pos rfl]
    case isFalse honly =>
      refine .seq (NamedAttribute.offer_answers _ _) ?_
      rintro _ rfl
      rw [Bool.eq_false_iff.2 honly, Bool.false_or, List.map_map, Function.comp_def]
      split
      · exact .pure rfl
      · exact .pure rfl

/-- What is known of the resources and attributes that are planned is known of those of a plan. -/
theorem build_answers {q₁ : List Resource → Prop} {q₂ : List PlannedAttribute → Prop}
    (hresources : (planResources set table p).Answers q₁)
    (hattributes : (planAttributes set table p).Answers q₂) {plan : Plan} {log : Log}
    (h : ((build set table p).run.run log).1 = .ok plan) : q₁ plan.resources ∧ q₂ plan.attributes := by
  have hanswers : (build set table p).run.Answers fun result => ∀ plan, result = .ok plan →
      q₁ plan.resources ∧ q₂ plan.attributes := by
    unfold build
    refine Merging.answers_lift (p := fun _ => True) (fun _ => trivial) fun merged _ => ?_
    refine Merging.answers_lift (p := fun _ => True) (fun _ => trivial) fun ⟨placed, after⟩ _ => ?_
    dsimp only
    rcases placed with fault | placed
    · exact .pure nofun
    · rw [Merging.ofExcept_ok_bind]
      refine Merging.answers_lift hresources fun resources hres => ?_
      refine Merging.answers_lift hattributes fun attributes hatt => .pure ?_
      rintro _ heq
      obtain rfl := Except.ok.inj heq
      exact ⟨hres, hatt⟩
  exact hanswers log plan h

theorem attributes_of_build {post : List PlannedAttribute → Prop}
    (hpost : (planAttributes set table p).Answers post) {plan : Plan} {log : Log}
    (h : ((build set table p).run.run log).1 = .ok plan) : post plan.attributes := by
  have hanything : (planResources set table p).Answers fun _ => True := fun _ => trivial
  exact (build_answers hanything hpost h).2

/-- The attributes that are not dropped, with their places. -/
def undropped (p : Policy) (es : List (Module × PlannedAttribute × Attribute)) : KeptAttributes :=
  (es.map naming).filter fun e => !p.drops e.2.name

theorem undropped_append_singleton (p : Policy) (es : List (Module × PlannedAttribute × Attribute))
    (e : Module × PlannedAttribute × Attribute) : undropped p (es ++ [e]) =
      if p.drops (naming e).2.name then undropped p es else undropped p es ++ [naming e] := by
  rw [undropped, List.map_append, List.filter_append, List.map_singleton]
  by_cases hdrops : p.drops (naming e).2.name
  · rw [if_pos hdrops, List.filter_cons_of_neg (by simp [hdrops]), List.filter_nil, List.append_nil]
    rfl
  · rw [if_neg hdrops, List.filter_cons_of_pos (by simp [hdrops]), List.filter_nil]
    rfl

/-- The attributes among which those of a plan are chosen. -/
def offeredAttributes (set : ModuleSet) (p : Policy) : KeptAttributes := undropped p (applications set p)

/-! ## Attributes that are the only ones of their types -/

/-- The names of the types of a module's attributes. -/
def attributeNames (m : Module) : List String := m.attributes.map fun a => m.typeNameOrToken a.type

theorem map_fst_entries (s : ModuleSet) (names : Module → List String) :
    (SymbolTable.entries s names).map Prod.fst = s.inputs.flatMap names := by
  have hmodules : s.inputs.flatMap names = s.inputs.zipIdx.flatMap fun e => names e.1 := by
    conv_lhs => rw [← List.zipIdx_map_fst 0 s.inputs, List.flatMap_map]
  rw [SymbolTable.entries, List.map_flatMap, hmodules]
  refine List.flatMap_congr ?_
  rintro ⟨m, i⟩ -
  dsimp only
  rw [List.map_map]
  exact List.zipIdx_map_fst 0 (names m)

/-- An attribute type has as many places in the table as it has applications in the inputs. -/
theorem length_attributeOrigins (set : ModuleSet) (name : String) :
    ((SymbolTable.ofSet set).attributeOrigins name).length =
      (set.inputs.flatMap attributeNames).count name := by
  rw [← map_fst_entries, List.count, List.countP_map, List.countP_eq_length_filter]
  exact List.length_map _

theorem map_name_applications (set : ModuleSet) (p : Policy) :
    (applications set p).map (fun e => (naming e).2.name) =
      ((attributeModules set p).map Prod.snd).flatMap attributeNames := by
  have hnames (source : AttributeSource) (m : Module) :
      (m.attributes.zipIdx.map fun (a, i) => (m, PlannedAttribute.mk source i, a)).map
        (fun e => (naming e).2.name) = attributeNames m := by
    rw [List.map_map, attributeNames, ← List.zipIdx_map_fst 0 m.attributes, List.map_map,
      List.zipIdx_map_fst]
    rfl
  rw [applications, List.map_flatMap, List.flatMap_map]
  exact List.flatMap_congr fun e _ => hnames e.1 e.2

/-- Attributes come from the inputs in their order, or from the attribute source. -/
theorem attributeModules_sublist (set : ModuleSet) (p : Policy) :
    (∀ e ∈ attributeModules set p, e.1 = .attributeFile) ∨
      ((attributeModules set p).map Prod.snd).Sublist set.inputs := by
  unfold attributeModules
  split
  case isTrue =>
    right
    exact List.Sublist.cons_cons _ (List.nil_sublist _)
  case isFalse =>
    split
    case h_1 => exact .inl (List.forall_mem_singleton.2 rfl)
    case h_2 =>
      right
      rw [List.map_map]
      exact (List.zipIdx_map_fst 0 set.inputs).symm ▸ List.Sublist.refl _

/-- An attribute that is the only one of its type in all inputs has none of its type before it. -/
theorem not_mem_of_isOnly {done rest : List (Module × PlannedAttribute × Attribute)}
    {e : Module × PlannedAttribute × Attribute} (hsplit : done ++ e :: rest = applications set p)
    (honly : isOnly (.ofSet set) e.2.1.source (naming e).2.name) :
    (naming e).2.name ∉ done.map fun e => (naming e).2.name := by
  obtain ⟨m, ⟨source, index⟩, a⟩ := e
  have he : (m, ⟨source, index⟩, a) ∈ applications set p := by simp [← hsplit]
  cases source with
  | attributeFile => exact nomatch honly
  | input i =>
    have hcount : (set.inputs.flatMap attributeNames).count (m.typeNameOrToken a.type) = 1 :=
      length_attributeOrigins set _ ▸ beq_iff_eq.1 honly
    rcases attributeModules_sublist set p with hfile | hsublist
    · obtain ⟨⟨source', m'⟩, hmodule, hplace⟩ := List.mem_flatMap.1 he
      obtain ⟨_, _, heq⟩ := List.mem_map.1 hplace
      obtain rfl : source' = .attributeFile := hfile _ hmodule
      exact nomatch congrArg (fun e => e.2.1.source) heq
    · -- the names of all applications are among those of the inputs, where this one is there once
      have hnames := hsublist.flatMap attributeNames
      rw [← map_name_applications, ← hsplit, List.map_append, List.map_cons] at hnames
      have hle := hnames.count_le (m.typeNameOrToken a.type)
      rw [hcount, List.count_append] at hle
      have hself : 1 ≤ ((naming (m, ⟨.input i, index⟩, a)).2.name ::
          rest.map fun e => (naming e).2.name).count (m.typeNameOrToken a.type) :=
        List.one_le_count_iff.2 List.mem_cons_self
      apply List.count_eq_zero.1
      change (done.map fun e => (naming e).2.name).count (m.typeNameOrToken a.type) = 0
      omega

/-! ## The choice -/

/-- Those of some attributes that can stand beside the ones kept before them. -/
def chosenOf (set : ModuleSet) (p : Policy) (es : KeptAttributes) : KeptAttributes :=
  accept (NamedAttribute.standsBeside (NamedAttribute.repeats set p)) (fun e => e.2.content) es

/-- An attribute of a type that was not there before is chosen. -/
theorem chosenOf_append_of_not_mem {es : KeptAttributes} {e : PlannedAttribute × NamedAttribute}
    (hnew : e.2.name ∉ es.map fun e => e.2.name) : chosenOf set p (es ++ [e]) = chosenOf set p es ++ [e] := by
  have hfits : NamedAttribute.standsBeside (NamedAttribute.repeats set p)
      ((chosenOf set p es).map fun e => e.2.content) e.2.content := by
    apply NamedAttribute.standsBeside_of_not_mem
    rw [List.map_map]
    intro hmem
    exact hnew (((accept_sublist _ _ es).map _).subset hmem)
  rw [chosenOf, accept_append_singleton]
  exact if_pos hfits

/-- Planning an attribute is one step of the scan over those that are not dropped. -/
theorem planAttribute_chosenOf {done : List (Module × PlannedAttribute × Attribute)}
    {e : Module × PlannedAttribute × Attribute}
    (honly : isOnly table e.2.1.source (naming e).2.name →
      (naming e).2.name ∉ done.map fun e => (naming e).2.name) :
    (planAttribute set table p e.1 e.2.1 (chosenOf set p (undropped p done)) e.2.2).Answers
      (· = chosenOf set p (undropped p (done ++ [e]))) := by
  intro log
  rw [planAttribute_eq, undropped_append_singleton]
  by_cases hdrops : p.drops (naming e).2.name
  · rw [if_pos hdrops, if_pos hdrops]
  · rw [if_neg hdrops, if_neg hdrops]
    by_cases h : isOnly table e.2.1.source (naming e).2.name
    · have hnew : (naming e).2.name ∉ (undropped p done).map fun e => e.2.name := by
        intro hmem
        obtain ⟨f, hf, heq⟩ := List.mem_map.1 hmem
        obtain ⟨g, hg, rfl⟩ := List.mem_map.1 (List.mem_filter.1 hf).1
        exact honly h (List.mem_map.2 ⟨g, hg, heq⟩)
      rw [h, Bool.true_or, if_pos rfl, chosenOf_append_of_not_mem hnew]
    · rw [Bool.eq_false_iff.2 h, Bool.false_or, chosenOf, chosenOf, accept_append_singleton]

/-- Planning attributes scans all that are not dropped. -/
theorem planAttributes_eq (set : ModuleSet) (p : Policy) :
    (planAttributes set (.ofSet set) p).Answers
      (· = (chosenOf set p (offeredAttributes set p)).map Prod.fst) := by
  have hscan : Logging.Answers ((applications set p).foldlM (fun kept e =>
      planAttribute set (.ofSet set) p e.1 e.2.1 kept e.2.2) [])
        (· = chosenOf set p (offeredAttributes set p)) := by
    refine Logging.Answers.foldlM_done (motive := fun done kept =>
      kept = chosenOf set p (undropped p done)) rfl ?_
    rintro done e rest hsplit _ rfl
    exact planAttribute_chosenOf (not_mem_of_isOnly hsplit)
  refine .seq hscan ?_
  rintro _ rfl
  exact .pure rfl

/-- The places of attributes are those of what is chosen among all that are not dropped. -/
def ChoosesAttributes (set : ModuleSet) (p : Policy) (places : List PlannedAttribute) : Prop :=
  ∃ kept, places = kept.map Prod.fst ∧
    Chosen (NamedAttribute.MayRepeat set p) (fun e => e.2.content) (offeredAttributes set p) kept

theorem planAttributes_choose (set : ModuleSet) (p : Policy) :
    (planAttributes set (.ofSet set) p).Answers (ChoosesAttributes set p) := by
  intro log
  rw [planAttributes_eq set p log]
  exact ⟨_, rfl, chosen_accept (fun _ => NamedAttribute.repeats_iff) _ _⟩

end Plan

end ModuleLinker
