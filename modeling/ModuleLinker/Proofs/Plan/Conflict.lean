import ModuleLinker.Plan.Build
import ModuleLinker.Proofs.Plan.Deciding
import ModuleLinker.Proofs.Plan.Placing
import ModuleLinker.Proofs.Relocation.Output

namespace ModuleLinker

/-! # When a plan is refused

A merge has no plan exactly if some name is contested: two types that claim it stay types of their
own, and both stay public because the policy hides neither of them. The fault tells of the first name
that is contested, and of the modules of the first two types that stay public under it.
-/

namespace ModuleSet

/-- The types that claim a name and stay public under it: they do not become part of another type, are
declared public, and the policy does not select them to be hidden. -/
def exposed (set : ModuleSet) (p : Policy) (name : String) : List Declaration :=
  (set.claimants name).filter fun d => !set.joins p d && d.type.flags.isPublic && !p.selects d

/-- Whether two types stay public under a name. -/
def Contested (set : ModuleSet) (p : Policy) (name : String) : Prop :=
  2 ≤ (set.exposed p name).length

instance (set : ModuleSet) (p : Policy) (name : String) : Decidable (set.Contested p name) :=
  inferInstanceAs (Decidable (2 ≤ _))

end ModuleSet

namespace Plan

open Internalization ModuleSet Naming

variable {set : ModuleSet} {p : Policy} {decisions : Decisions} {names names' : FreshNames}

/-- The public types among which a name is given away are those that stay public under it. -/
theorem publicKeepers_eq
    (hdecided : Decided (.ofSet set) p (mergedIn set p) set.declarations names decisions names') {s : Symbol}
    (hs : s ∈ (SymbolTable.ofSet set).symbols) :
    publicKeepers decisions (remainingOf (mergedIn set p) s) = set.exposed p s.name := by
  rw [publicKeepers, keepers, remainingOf, List.filter_filter, List.filter_filter, exposed,
    claimants_eq hs]
  refine List.filter_congr fun d hd => Bool.eq_iff_iff.2 ?_
  have hdeclared := mem_declarations_of_mem hs hd
  have hmerged := isMerged_iff (p := p) hdeclared
  have hkeep := hdecided.keep_iff d hdeclared
  unfold changes at hkeep
  rcases hcase : decisionOn decisions d.origin with _ | _ | name
  -- a type that stays as it is declared is public only if the policy does not select it
  · have hstays := hkeep.1 hcase
    simp only [isRename]
    grind
  all_goals
    have hchanges := not_not.1 (mt hkeep.2 (by simp [hcase]))
    simp only [isRename]
    grind

theorem conflict?_eq_none_iff
    (hdecided : Decided (.ofSet set) p (mergedIn set p) set.declarations names decisions names') {s : Symbol}
    (hs : s ∈ (SymbolTable.ofSet set).symbols) :
    conflict? decisions (mergedIn set p) s = none ↔ ¬ set.Contested p s.name := by
  rw [conflict?, publicKeepers_eq hdecided hs, Contested]
  rcases set.exposed p s.name with _ | ⟨first, _ | ⟨second, rest⟩⟩ <;> simp

theorem conflict?_eq_some
    (hdecided : Decided (.ofSet set) p (mergedIn set p) set.declarations names decisions names') {s : Symbol}
    (hs : s ∈ (SymbolTable.ofSet set).symbols) {first second : Declaration} {rest : List Declaration}
    (hexposed : set.exposed p s.name = first :: second :: rest) :
    conflict? decisions (mergedIn set p) s =
      some (.conflict s.name first.module.name second.module.name) := by
  rw [conflict?, publicKeepers_eq hdecided hs, hexposed]

/-! ## Placing all types -/

/-- The names that are taken from the start are those of the types that are placed. -/
theorem taken_declaredNames {s : Symbol} (hs : s ∈ (SymbolTable.ofSet set).symbols) {d : Declaration}
    (hd : d ∈ remainingOf (mergedIn set p) s) : (declaredNames set).Taken d.name := by
  rw [declaredNames, FreshNames.taken_of]
  exact List.mem_map_of_mem (mem_declarations_of_mem hs (List.mem_filter.1 hd).1)

theorem decideAll_succeeds (set : ModuleSet) (p : Policy) :
    Succeeds (liftM (decideAll (.ofSet set) p (mergedIn set p) set.declarations) : Placing Decisions)
      (declaredNames set)
      (Decided (.ofSet set) p (mergedIn set p) set.declarations (declaredNames set)) :=
  .lift (decideAll_yields set.nodup_origins _)

/-- What is placed if no name is contested. -/
structure PlacedFor (set : ModuleSet) (p : Policy) (decisions : Decisions) (between : FreshNames)
    (xs : List Placed) (after : FreshNames) : Prop where
  decided : Decided (.ofSet set) p (mergedIn set p) set.declarations (declaredNames set) decisions between
  all : PlacedAll decisions (mergedIn set p) (SymbolTable.ofSet set).symbols xs
  takes : between.Takes (freshNames decisions xs) after

theorem placeTypes_succeeds (hfree : ∀ name, ¬ set.Contested p name) :
    Succeeds (placeTypes set (.ofSet set) p (mergedIn set p)) (declaredNames set) fun xs after =>
      ∃ decisions between, PlacedFor set p decisions between xs after := by
  unfold placeTypes
  refine (decideAll_succeeds set p).bind fun decisions between hdecided => ?_
  refine (Succeeds.lift (Yields.verbose _)).bind fun _ names hnames => ?_
  subst names
  have htaken : ∀ s ∈ (SymbolTable.ofSet set).symbols,
      ∀ d ∈ remainingOf (mergedIn set p) s, between.Taken d.name :=
    fun s hs d hd => hdecided.takes.mono (taken_declaredNames hs hd)
  have hnone : ∀ s ∈ (SymbolTable.ofSet set).symbols,
      conflict? decisions (mergedIn set p) s = none :=
    fun s hs => (conflict?_eq_none_iff hdecided hs).2 (hfree s.name)
  have hplaced := placeSymbols_succeeds hnone htaken
  exact Yields.mono hplaced fun _ _ ⟨xs, hxs, hall, htakes⟩ =>
    ⟨xs, hxs, decisions, between, hdecided, hall, htakes⟩

/-- The first symbol whose name is contested is the one that is told of. -/
theorem placeTypes_fails {before after : List Symbol} {s : Symbol} {first second : Declaration}
    {rest : List Declaration} (hsymbols : (SymbolTable.ofSet set).symbols = before ++ s :: after)
    (hbefore : ∀ s' ∈ before, ¬ set.Contested p s'.name)
    (hexposed : set.exposed p s.name = first :: second :: rest) :
    Fails (placeTypes set (.ofSet set) p (mergedIn set p)) (declaredNames set)
      (.conflict s.name first.module.name second.module.name) := by
  unfold placeTypes
  refine (decideAll_succeeds set p).bind_fails fun decisions between hdecided => ?_
  refine (Succeeds.lift (Yields.verbose _)).bind_fails fun _ names hnames => ?_
  subst names
  have hs : s ∈ (SymbolTable.ofSet set).symbols := by simp [hsymbols]
  have hmem : ∀ s' ∈ before, s' ∈ (SymbolTable.ofSet set).symbols := by
    intro s' hs'
    simp [hsymbols, hs']
  refine placeSymbols_fails hsymbols ?_ ?_ (conflict?_eq_some hdecided hs hexposed)
  · intro s' hs'
    exact (conflict?_eq_none_iff hdecided (hmem s' hs')).2 (hbefore s' hs')
  · intro s' hs' d hd
    exact hdecided.takes.mono (taken_declaredNames (hmem s' hs') hd)

/-! ## Whole plans -/

/-- If no name is contested there is a plan, its types are those placed and those that become part of
others, and it tells of the new names of those placed and how many of them are hidden. -/
theorem build_ok (hfree : ∀ name, ¬ set.Contested p name) :
    (build set (.ofSet set) p).run.Answers fun result => ∃ plan xs decisions between after,
      result = .ok plan ∧ PlacedFor set p decisions between xs after ∧
        plan.placements = xs.map (fun x => (x.declaration.origin, .emit x.name x.hide)) ++
          ((mergedIn set p).map fun (origin, target) => (origin, .into target)) ∧
        plan.renames = xs.filterMap renameOf? ∧ plan.hidden = (xs.filter Placed.hide).length := by
  unfold build
  refine Merging.answers_lift (mergeSymbols_answers p _) ?_
  rintro _ rfl
  refine Merging.answers_lift (placeTypes_succeeds hfree).answers ?_
  rintro ⟨_, after⟩ ⟨xs, rfl, decisions, between, hplaced⟩
  dsimp only
  rw [Merging.ofExcept_ok_bind]
  refine Merging.answers_lift (p := fun _ => True) (fun _ => trivial) fun resources _ => ?_
  refine Merging.answers_lift (p := fun _ => True) (fun _ => trivial) fun attributes _ => ?_
  exact .pure ⟨_, xs, decisions, between, after, rfl, hplaced, rfl, rfl, rfl⟩

theorem build_error {before after : List Symbol} {s : Symbol} {first second : Declaration}
    {rest : List Declaration} (hsymbols : (SymbolTable.ofSet set).symbols = before ++ s :: after)
    (hbefore : ∀ s' ∈ before, ¬ set.Contested p s'.name)
    (hexposed : set.exposed p s.name = first :: second :: rest) :
    (build set (.ofSet set) p).run.Answers
      (· = .error (.conflict s.name first.module.name second.module.name)) := by
  unfold build
  refine Merging.answers_lift (mergeSymbols_answers p _) ?_
  rintro _ rfl
  refine Merging.answers_lift (placeTypes_fails hsymbols hbefore hexposed).answers ?_
  rintro ⟨_, after⟩ rfl
  exact .pure rfl

/-! ## The type that is told of -/

/-- The first type in the order of modules and declarations whose name is contested. -/
def firstContested? (set : ModuleSet) (p : Policy) : Option Declaration :=
  set.declarations.find? fun d => decide (set.Contested p d.name)

theorem exists_claimant {name : String} (hname : set.Contested p name) :
    ∃ s ∈ (SymbolTable.ofSet set).symbols, set.Contested p s.name := by
  have hpos : 0 < (set.exposed p name).length := by
    unfold Contested at hname
    omega
  obtain ⟨d, hd⟩ := List.exists_mem_of_length_pos hpos
  obtain ⟨hdeclared, hclaims⟩ := List.mem_filter.1 (List.mem_filter.1 hd).1
  obtain ⟨s, hs, hsame, -⟩ := set.groups.exists_symbol hdeclared
  refine ⟨s, hs, ?_⟩
  rw [hsame, beq_iff_eq.1 hclaims]
  exact hname

/-- The first symbol with a contested name starts with the first type that has such a name. -/
theorem exists_firstContested {name : String} (hname : set.Contested p name) :
    ∃ before s after, (SymbolTable.ofSet set).symbols = before ++ s :: after ∧
      (∀ s' ∈ before, ¬ set.Contested p s'.name) ∧ set.Contested p s.name ∧
        firstContested? set p = some s.first := by
  obtain ⟨claimed, hclaimed, hcontested⟩ := exists_claimant hname
  have hsome : ((SymbolTable.ofSet set).symbols.find?
      fun s => decide (set.Contested p s.name)).isSome :=
    List.find?_isSome.2 ⟨claimed, hclaimed, decide_eq_true hcontested⟩
  obtain ⟨s, hs⟩ := Option.isSome_iff_exists.1 hsome
  obtain ⟨hcontested, before, after, heq, hbefore⟩ := List.find?_eq_some_iff_append.1 hs
  have hclean : ∀ s' ∈ before, ¬ set.Contested p s'.name := by
    intro s' hs'
    simpa using hbefore s' hs'
  have hnames : ∀ s' ∈ before ++ s :: after, s'.first.name = s'.name := by
    intro s' hs'
    exact set.groups.name_eq (heq ▸ hs') List.mem_cons_self
  refine ⟨before, s, after, heq, hclean, of_decide_eq_true hcontested, ?_⟩
  -- a type before the first one of the symbol has the name of a symbol before it
  have hfirsts := set.groups.firsts
  rw [heq, List.map_append, List.map_cons] at hfirsts
  obtain ⟨before', after', hds, hkeys⟩ := eq_append_of_firsts_eq hfirsts.symm
  refine List.find?_eq_some_iff_append.2 ⟨?_, before', after', hds, ?_⟩
  · rw [hnames s (by simp)]
    exact hcontested
  · intro d hd
    obtain ⟨first, hfirst, hname⟩ := (hkeys d hd).resolve_left List.not_mem_nil
    obtain ⟨s', hs', rfl⟩ := List.mem_map.1 hfirst
    rw [← hname, hnames s' (by simp [hs'])]
    simpa using hclean s' hs'

/-- A contested name stops the plan, and the fault tells of the first one. -/
theorem build_conflict {name : String} (hname : set.Contested p name) :
    ∃ d first second rest, firstContested? set p = some d ∧
      set.exposed p d.name = first :: second :: rest ∧
      (build set (.ofSet set) p).run.Answers
        (· = .error (.conflict d.name first.module.name second.module.name)) := by
  obtain ⟨before, s, after, hsymbols, hclean, hcontested, hfirst⟩ := exists_firstContested hname
  have hs : s ∈ (SymbolTable.ofSet set).symbols := by simp [hsymbols]
  have hsame : s.first.name = s.name := set.groups.name_eq hs List.mem_cons_self
  obtain ⟨first, second, rest, hexposed⟩ : ∃ first second rest,
      set.exposed p s.name = first :: second :: rest := by
    rcases hexposed : set.exposed p s.name with _ | ⟨first, _ | ⟨second, rest⟩⟩
    · simp [Contested, hexposed] at hcontested
    · simp [Contested, hexposed] at hcontested
    · exact ⟨first, second, rest, rfl⟩
  refine ⟨s.first, first, second, rest, hfirst, hsame ▸ hexposed, ?_⟩
  rw [hsame]
  exact build_error hsymbols hclean hexposed

section

variable {log : Log}

/-- A fault in making a plan is the conflict on the first contested name. -/
theorem exists_conflict_of_build {fault : Fault}
    (h : ((build set (.ofSet set) p).run.run log).1 = .error fault) :
    ∃ d first second rest, firstContested? set p = some d ∧
      set.exposed p d.name = first :: second :: rest ∧
      fault = .conflict d.name first.module.name second.module.name := by
  by_cases hname : ∃ name, set.Contested p name
  · obtain ⟨name, hname⟩ := hname
    obtain ⟨d, first, second, rest, hfirst, hexposed, hresult⟩ := build_conflict hname
    exact ⟨d, first, second, rest, hfirst, hexposed, Except.error.inj (h.symm.trans (hresult log))⟩
  · obtain ⟨plan, -, -, -, -, hplan, -⟩ := build_ok (fun name h => hname ⟨name, h⟩) log
    exact nomatch h.symm.trans hplan

/-- A plan that has been made has no contested names. -/
theorem not_contested_of_build {plan : Plan}
    (h : ((build set (.ofSet set) p).run.run log).1 = .ok plan) (name : String) : ¬ set.Contested p name := by
  intro hname
  obtain ⟨d, first, second, rest, -, -, hresult⟩ := build_conflict hname
  exact nomatch h.symm.trans (hresult log)

end

end Plan

end ModuleLinker
