import ModuleLinker.Proofs.Plan.Placement
import ModuleLinker.Proofs.Relocation.Apart

namespace ModuleLinker

/-! # Types that the primary module keeps

Where every name is claimed by a type of the primary module and nothing else but types that become part of
it, there is a plan, and the types of the primary module stay as they are declared.
-/

/-! ## Modules whose types have different full names

The full name of a nested type starts with that of the type around it. Where no two types of a module
have one full name, top-level types differ in their qualified names, and types nested in one type differ
in their names.
-/

namespace TypeDef

/-- A type and what is nested in it have their full names one after another. -/
theorem map_snd_walkFrom (fullName : String) (t : TypeDef) :
    (walkFrom fullName t).map Prod.snd = fullName :: (walkAll fullName t.nested).map Prod.snd := by
  cases t
  rw [walkFrom, List.map_cons]

/-- The names that nested types have by themselves stand among those of all nested types. -/
theorem sublist_walkAll (outer : String) (ts : List TypeDef) :
    (ts.map fun t => s!"{outer}/{t.name}").Sublist ((walkAll outer ts).map Prod.snd) := by
  induction ts with
  | nil => exact List.Sublist.refl []
  | cons t ts ih =>
    rw [List.map_cons, walkAll, List.map_append, map_snd_walkFrom, List.cons_append]
    exact (ih.trans (List.sublist_append_right _ _)).cons_cons _

theorem nodup_names_of_walkAll {outer : String} {ts : List TypeDef}
    (h : ((walkAll outer ts).map Prod.snd).Nodup) : (ts.map TypeDef.name).Nodup := by
  have hnames := h.sublist (sublist_walkAll outer ts)
  have hmap : (ts.map fun t => s!"{outer}/{t.name}") =
      (ts.map TypeDef.name).map fun name => s!"{outer}/{name}" := by
    rw [List.map_map]
    rfl
  rw [hmap] at hnames
  exact hnames.of_map _

mutual

theorem namesApart_of_walkFrom (t : TypeDef) {fullName : String}
    (h : ((walkFrom fullName t).map Prod.snd).Nodup) : t.NamesApart := by
  rw [map_snd_walkFrom, List.nodup_cons] at h
  rcases t with ⟨_, _, _, _, _, _, _, _, _, _, _, nested, _⟩
  unfold NamesApart
  rw [within_eq, List.forall_mem_cons]
  refine ⟨nodup_names_of_walkAll h.2, ?_⟩
  intro u hu
  obtain ⟨t, ht, hu⟩ := List.mem_flatMap.1 hu
  exact namesApart_of_walkAll nested h.2 t ht u hu

theorem namesApart_of_walkAll (ts : List TypeDef) {outer : String}
    (h : ((walkAll outer ts).map Prod.snd).Nodup) : ∀ t ∈ ts, t.NamesApart := by
  cases ts with
  | nil => exact fun _ ht => absurd ht List.not_mem_nil
  | cons t ts =>
    rw [walkAll, List.map_append, List.nodup_append] at h
    exact List.forall_mem_cons.2 ⟨namesApart_of_walkFrom t h.1, namesApart_of_walkAll ts h.2.1⟩

end

end TypeDef

namespace Module

variable {m : Module}

theorem nodup_qualifiedNames (h : (m.walk.map Prod.snd).Nodup) :
    (m.types.map TypeDef.qualifiedName).Nodup := by
  refine h.sublist ?_
  rw [walk, List.map_flatMap, List.map_eq_flatMap]
  refine List.Sublist.flatMap_right _ fun t _ => ?_
  rw [TypeDef.walk, TypeDef.map_snd_walkFrom]
  exact List.singleton_sublist.2 List.mem_cons_self

theorem namesApart (h : (m.walk.map Prod.snd).Nodup) : ∀ t ∈ m.types, t.NamesApart := by
  intro t ht
  rw [walk, List.map_flatMap] at h
  exact TypeDef.namesApart_of_walkFrom t ((List.nodup_flatMap.1 h).1 t ht)

end Module

namespace ModuleSet

/-- A module by itself. -/
def alone (m : LoadedModule) : ModuleSet :=
  { primary := m, others := [], references := [], attributeSource := none }

/-- Two modules and nothing else. -/
def pair (m other : LoadedModule) : ModuleSet :=
  { primary := m, others := [other], references := [], attributeSource := none }

theorem declarations_alone (m : LoadedModule) :
    (alone m).declarations = declarationsOf m.module 0 := by
  simp [declarations, alone, inputs, List.zipIdx_cons]

theorem declarations_pair (m other : LoadedModule) :
    (pair m other).declarations = declarationsOf m.module 0 ++ declarationsOf other.module 1 := by
  simp [declarations, pair, inputs, List.zipIdx_cons]

theorem map_name_declarationsOf (m : Module) (index : Nat) :
    (declarationsOf m index).map Declaration.name = m.types.map TypeDef.qualifiedName := by
  have hname : Declaration.name ∘ (fun x : TypeDef × Nat => (⟨⟨index, x.2⟩, m, x.1⟩ : Declaration)) =
      TypeDef.qualifiedName ∘ Prod.fst := rfl
  rw [declarationsOf, List.map_map, hname, ← List.map_map, List.zipIdx_map_fst]

/-- A type at a place of a module. -/
theorem mem_declarationsOf {m : Module} {index : Nat} {d : Declaration} :
    d ∈ declarationsOf m index ↔ ∃ i type, m.types[i]? = some type ∧ d = ⟨⟨index, i⟩, m, type⟩ := by
  rw [declarationsOf, List.mem_map]
  constructor
  · rintro ⟨⟨type, i⟩, hmem, rfl⟩
    exact ⟨i, type, List.mk_mem_zipIdx_iff_getElem?.1 hmem, rfl⟩
  · rintro ⟨i, type, htype, rfl⟩
    exact ⟨(type, i), List.mk_mem_zipIdx_iff_getElem?.2 htype, rfl⟩

/-- A type of an input. -/
theorem mem_declarations_iff {set : ModuleSet} {d : Declaration} : d ∈ set.declarations ↔
    ∃ m, set.inputs[d.origin.module]? = some m ∧ d ∈ declarationsOf m d.origin.module := by
  rw [declarations, List.mem_flatMap]
  constructor
  · rintro ⟨⟨m, i⟩, hm, hd⟩
    obtain ⟨j, type, htype, rfl⟩ := mem_declarationsOf.1 hd
    exact ⟨m, List.mk_mem_zipIdx_iff_getElem?.1 hm, hd⟩
  · rintro ⟨m, hm, hd⟩
    exact ⟨(m, d.origin.module), List.mk_mem_zipIdx_iff_getElem?.2 hm, hd⟩

/-- Of the types of a module with different names only one has the name of a given one. -/
theorem filter_declarationsOf {m : Module} (hnames : (m.types.map TypeDef.qualifiedName).Nodup)
    {index : Nat} {d : Declaration} (hd : d ∈ declarationsOf m index) :
    (declarationsOf m index).filter (·.name == d.name) = [d] := by
  have hnodup : ((declarationsOf m index).map Declaration.name).Nodup := by
    rwa [map_name_declarationsOf]
  exact filter_key_eq hd hnodup

end ModuleSet

namespace Plan

open Internalization ModuleSet

variable {set : ModuleSet} {plan : Plan} {p : Policy}

/-- Of the types that claim a name one stays a type of its own, and it is one of the primary module. -/
def PrimaryKeeps (set : ModuleSet) (p : Policy) : Prop :=
  ∀ s ∈ (SymbolTable.ofSet set).symbols, s.first.origin.module = 0 ∧ remaining set p s = [s.first]

theorem PrimaryKeeps.not_contested (h : PrimaryKeeps set p) (name : String) : ¬ set.Contested p name := by
  intro hname
  obtain ⟨s, hs, hcontested⟩ := exists_claimant hname
  have hsublist : (set.exposed p s.name).Sublist (remaining set p s) := by
    have hclaimants : set.claimants s.name = s.contributors := claimants_eq hs
    rw [exposed, hclaimants, remaining]
    refine List.monotone_filter_right _ fun d hd => ?_
    simp only [Bool.and_eq_true] at hd
    exact hd.1.1
  have hlength := hsublist.length_le
  rw [(h s hs).2, List.length_singleton] at hlength
  unfold Contested at hcontested
  omega

/-- There is a plan. -/
theorem PrimaryKeeps.exists_build (h : PrimaryKeeps set p) (log : Log) :
    ∃ plan, ((build set (.ofSet set) p).run.run log).1 = .ok plan := by
  obtain ⟨plan, -, -, -, -, hplan, -⟩ := build_ok h.not_contested log
  exact ⟨plan, hplan⟩

/-- The first type of a name stays as it is declared. -/
theorem PrimaryKeeps.placement_first (h : PrimaryKeeps set p) {log : Log}
    (hplan : ((build set (.ofSet set) p).run.run log).1 = .ok plan) {s : Symbol}
    (hs : s ∈ (SymbolTable.ofSet set).symbols) :
    plan.placement? s.first.origin = some (.emit s.first.type.name false) := by
  obtain ⟨xs, decisions, between, after, hplaced, hplacements⟩ := exists_placedFor hplan
  obtain ⟨hprimary, hremaining⟩ := h s hs
  have hfirst : s.first ∈ set.declarations := mem_declarations_of_mem hs List.mem_cons_self
  have hkeep : decisionOn decisions s.first.origin = keep := by
    refine (hplaced.decided.keep_iff s.first hfirst).2 ?_
    simp [changes, Policy.selects, hprimary]
  have hplacement : s.first ∈ xs.map Placed.declaration := by
    rw [hplaced.all.declarations]
    refine List.mem_flatMap.2 ⟨s, hs, ?_⟩
    rw [remainingOf, filter_isMerged_eq hs, hremaining]
    exact List.mem_singleton_self _
  obtain ⟨x, hx, hdeclaration⟩ := List.mem_map.1 hplacement
  obtain ⟨s', hs', hmem, hby⟩ := hplaced.all.placed x hx
  -- the type claims one name only
  have hcontributor : s.first ∈ s'.contributors := hdeclaration ▸ (List.mem_filter.1 hmem).1
  have hname : s.name = s'.name :=
    (set.groups.name_eq hs List.mem_cons_self).symm.trans (set.groups.name_eq hs' hcontributor)
  obtain rfl := set.groups.eq_of_name_eq hs hs' hname
  have hwinner : winner? decisions (mergedIn set p) s = some s.first.origin := by
    have hkeepers : keepers decisions (remainingOf (mergedIn set p) s) = [s.first] := by
      rw [remainingOf, filter_isMerged_eq hs, hremaining, keepers, List.filter_singleton, hkeep]
      rfl
    rw [winner?, publicKeepers, hkeepers, List.filter_singleton]
    rcases decisionOn decisions s.first.origin == keep && s.first.type.flags.isPublic with _ | _
    · rfl
    · rfl
  have hrename : ¬ (decisionOn decisions x.declaration.origin).isRename := by
    rw [hdeclaration, hkeep]
    exact Bool.false_ne_true
  have hsame : x.name = s.first.type.name := by
    rw [← hdeclaration]
    exact (hby.kept hrename).2 (hdeclaration ▸ hwinner)
  have hshown : x.hide = false := by
    rw [hby.hide, hdeclaration, hkeep]
    rfl
  rw [placement?, hplacements, lookup_eq_some_iff_mem (hplaced.once.nodup_iff.2 set.nodup_origins)]
  refine List.mem_append_left _ (List.mem_map.2 ⟨x, hx, ?_⟩)
  rw [hdeclaration, hsame, hshown]

/-- A type behind the first one of its name becomes part of it. -/
theorem PrimaryKeeps.placement_other (h : PrimaryKeeps set p) {log : Log}
    (hplan : ((build set (.ofSet set) p).run.run log).1 = .ok plan) {s : Symbol}
    (hs : s ∈ (SymbolTable.ofSet set).symbols) {d : Declaration} (hd : d ∈ s.others) :
    plan.placement? d.origin = some (.into s.first.origin) := by
  obtain ⟨xs, decisions, between, after, hplaced, hplacements⟩ := exists_placedFor hplan
  have hcontributor : d ∈ s.contributors := List.mem_cons_of_mem _ hd
  have hjoins : set.joins p d := by
    by_contra hnot
    have hmem : d ∈ remaining set p s :=
      List.mem_filter.2 ⟨hcontributor, by rw [Bool.eq_false_iff.2 hnot, Bool.not_false]⟩
    rw [(h s hs).2, List.mem_singleton] at hmem
    exact first_not_mem_others hs (hmem ▸ hd)
  have hjoined : d ∈ joined p s := List.mem_filter.2 ⟨hd, ((joins_iff hs hcontributor).1 hjoins).2⟩
  rw [placement?, hplacements, lookup_eq_some_iff_mem (hplaced.once.nodup_iff.2 set.nodup_origins)]
  refine List.mem_append_right _ (List.mem_map.2 ⟨(d.origin, s.first.origin), ?_, rfl⟩)
  exact mem_mergedIn.2 ⟨s, hs, d, hjoined, rfl, rfl⟩

/-! ## A module by itself -/

theorem claimants_alone {m : LoadedModule} (hnames : (m.module.types.map TypeDef.qualifiedName).Nodup)
    {d : Declaration} (hd : d ∈ (alone m).declarations) : (alone m).claimants d.name = [d] := by
  rw [declarations_alone] at hd
  rw [claimants, declarations_alone]
  exact filter_declarationsOf hnames hd

theorem primaryKeeps_alone {m : LoadedModule}
    (hnames : (m.module.types.map TypeDef.qualifiedName).Nodup) (p : Policy) :
    PrimaryKeeps (alone m) p := by
  intro s hs
  have hfirst : s.first ∈ (alone m).declarations := mem_declarations_of_mem hs List.mem_cons_self
  have hclaimants := claimants_alone hnames hfirst
  have hname := (alone m).groups.name_eq hs List.mem_cons_self
  rw [hname, claimants_eq hs, List.cons.injEq] at hclaimants
  constructor
  · rw [declarations_alone] at hfirst
    obtain ⟨i, type, -, heq⟩ := mem_declarationsOf.1 hfirst
    rw [heq]
  · rw [remaining, Symbol.contributors, hclaimants.2, List.filter_singleton,
      Bool.eq_false_iff.2 (first_not_joins hs)]
    rfl

/-- The types of a module by itself stay as they are declared. -/
theorem placement_alone {m : LoadedModule} (hnames : (m.module.types.map TypeDef.qualifiedName).Nodup)
    {log : Log} (hplan : ((build (alone m) (.ofSet (alone m)) p).run.run log).1 = .ok plan) {i : Nat}
    {type : TypeDef} (htype : m.module.types[i]? = some type) :
    plan.placement? ⟨0, i⟩ = some (.emit type.name false) := by
  have hd : ⟨⟨0, i⟩, m.module, type⟩ ∈ (alone m).declarations := by
    rw [declarations_alone]
    exact mem_declarationsOf.2 ⟨i, type, htype, rfl⟩
  obtain ⟨s, hs, hname, -⟩ := (alone m).groups.exists_symbol hd
  have hclaimants := claimants_eq hs
  rw [hname, claimants_alone hnames hd, List.cons.injEq] at hclaimants
  have hfirst := (primaryKeeps_alone hnames p).placement_first hplan hs
  rwa [← hclaimants.1] at hfirst

end Plan

end ModuleLinker
