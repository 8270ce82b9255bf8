import Mathlib.Data.List.Pairwise
import ModuleLinker.Proofs.Plan.Conflict
import ModuleLinker.Proofs.Relocation.Building

namespace ModuleLinker

/-! # Plans place all types

A plan that is made gives every top-level type of the inputs one place: a type of its own, whose name
no other type of the output has, or a part of an earlier type that the output does have. Nothing of it
can stop a relocation from finding the shapes of the output.
-/

/-! ## Names of the output

A placed type has a new name that was decided on, the name that it is declared with, or a name that it
got when it was placed. Names of the first kind were taken after the declared ones and before those of
the third kind, so that names of different kinds differ; within a kind no name is used twice.
-/

namespace Plan

open Internalization ModuleSet

variable {set : ModuleSet} {p : Policy} {decisions : Decisions} {between after : FreshNames}
  {xs : List Placed}

/-- Where no list that elements are turned into shares anything with another one, an element is known
from what is in its list. -/
theorem eq_of_mem_flatMap {f : α → List β} {as : List α} (hnodup : (as.flatMap f).Nodup) {a a' : α}
    (ha : a ∈ as) (ha' : a' ∈ as) {b : β} (hb : b ∈ f a) (hb' : b ∈ f a') : a = a' := by
  have hpairwise := (List.nodup_flatMap.1 hnodup).2
  have hsymmetric : Std.Symm (Function.onFun List.Disjoint f) := ⟨fun _ _ h => List.disjoint_symm h⟩
  by_contra hne
  exact hpairwise.forall ha ha' hne hb hb'

namespace PlacedFor

/-- What is placed and what becomes part of something else make up all declarations. -/
theorem perm (h : PlacedFor set p decisions between xs after) :
    (xs.map Placed.declaration ++ (SymbolTable.ofSet set).symbols.flatMap (joined p)).Perm
      set.declarations := by
  have hremaining : xs.map Placed.declaration =
      (SymbolTable.ofSet set).symbols.flatMap (remaining set p) := by
    rw [h.all.declarations]
    exact List.flatMap_congr fun s hs => filter_isMerged_eq hs
  rw [hremaining]
  refine List.perm_append_comm.trans ((List.flatMap_append_perm _ _ _).trans ?_)
  refine .trans ?_ (Symbol.ofDeclarations_perm set.declarations)
  exact List.Perm.flatMap_left _ fun s hs => joined_append_remaining_perm hs

theorem mem_declarations (h : PlacedFor set p decisions between xs after) {x : Placed} (hx : x ∈ xs) :
    x.declaration ∈ set.declarations :=
  h.perm.subset (List.mem_append_left _ (List.mem_map_of_mem hx))

/-- No declaration is placed twice. -/
theorem eq_of_declaration_eq (h : PlacedFor set p decisions between xs after) {x y : Placed}
    (hx : x ∈ xs) (hy : y ∈ xs) (heq : x.declaration = y.declaration) : x = y := by
  have hnodup := h.perm.nodup_iff.2 set.nodup_declarations
  exact List.inj_on_of_nodup_map hnodup.of_append_left hx hy heq

end PlacedFor

/-- How a placed type came to its name: which of the three kinds of names it is, and whether it was
taken at the start and before types were placed. -/
inductive Named (set : ModuleSet) (p : Policy) (decisions : Decisions) (between : FreshNames)
    (xs : List Placed) (x : Placed) : Prop
  | decided (given : x.outputName ∈ newName x.declaration (decisionOn decisions x.declaration.origin))
      (new : ¬ (declaredNames set).Taken x.outputName) (taken : between.Taken x.outputName)
  | kept (declared : x.outputName = x.declaration.name)
      (claims : ∃ s ∈ (SymbolTable.ofSet set).symbols, x.declaration ∈ s.contributors ∧
        winner? decisions (mergedIn set p) s = some x.declaration.origin)
      (old : (declaredNames set).Taken x.outputName) (taken : between.Taken x.outputName)
  | fresh (given : x ∈ xs.filter (Placed.isFresh decisions)) (new : ¬ between.Taken x.outputName)

theorem outputName_eq_of_name_eq {x : Placed} (h : x.name = x.declaration.type.name) :
    x.outputName = x.declaration.name := by
  rw [Placed.outputName, h]
  rfl

namespace PlacedFor

/-- A name that was decided on is neither declared nor taken a second time. -/
theorem decidedName (h : PlacedFor set p decisions between xs after) {x : Placed} (hx : x ∈ xs)
    (hrename : (decisionOn decisions x.declaration.origin).isRename) :
    x.outputName ∈ newName x.declaration (decisionOn decisions x.declaration.origin) ∧
      ¬ (declaredNames set).Taken x.outputName ∧ between.Taken x.outputName := by
  obtain ⟨s, -, -, hplaced⟩ := h.all.placed x hx
  obtain ⟨name, hname⟩ := exists_of_isRename hrename
  have hgiven : x.outputName ∈
      newName x.declaration (decisionOn decisions x.declaration.origin) := by
    rw [hname, Placed.outputName, hplaced.renamed name hname, newName, List.mem_singleton]
  have hall : x.outputName ∈ set.declarations.flatMap fun d =>
      newName d (decisionOn decisions d.origin) :=
    List.mem_flatMap.2 ⟨_, h.mem_declarations hx, hgiven⟩
  exact ⟨hgiven, h.decided.takes.free _ hall, (h.decided.takes.taken _).2 (.inl hall)⟩

theorem named (h : PlacedFor set p decisions between xs after) {x : Placed} (hx : x ∈ xs) :
    Named set p decisions between xs x := by
  obtain ⟨s, hs, hmem, hplaced⟩ := h.all.placed x hx
  by_cases hrename : (decisionOn decisions x.declaration.origin).isRename
  · obtain ⟨hgiven, hnew, htaken⟩ := h.decidedName hx hrename
    exact .decided hgiven hnew htaken
  · by_cases hname : x.name = x.declaration.type.name
    · have hdeclared := outputName_eq_of_name_eq hname
      have hold : (declaredNames set).Taken x.outputName := hdeclared ▸ taken_declaredNames hs hmem
      have hwinner := (hplaced.kept hrename).1 hname
      exact .kept hdeclared ⟨s, hs, (List.mem_filter.1 hmem).1, hwinner⟩ hold
        (h.decided.takes.mono hold)
    · have hfresh : x ∈ xs.filter (Placed.isFresh decisions) := by
        refine List.mem_filter.2 ⟨hx, ?_⟩
        simp [Placed.isFresh, hrename, hname]
      exact .fresh hfresh (h.takes.free _ (List.mem_map_of_mem hfresh))

/-- No two placed types have the same name in the output. -/
theorem eq_of_outputName_eq (h : PlacedFor set p decisions between xs after) {x y : Placed}
    (hx : x ∈ xs) (hy : y ∈ xs) (heq : x.outputName = y.outputName) : x = y := by
  rcases h.named hx with ⟨hgiven, hnew, htaken⟩ | ⟨hname, ⟨s, hs, hmem, hwinner⟩, hold, htaken⟩ |
    ⟨hgiven, hnew⟩ <;>
  rcases h.named hy with ⟨hgiven', hnew', htaken'⟩ |
    ⟨hname', ⟨s', hs', hmem', hwinner'⟩, hold', htaken'⟩ | ⟨hgiven', hnew'⟩
  -- two names that were decided on
  · refine h.eq_of_declaration_eq hx hy ?_
    exact eq_of_mem_flatMap h.decided.takes.nodup (h.mem_declarations hx) (h.mem_declarations hy)
      (heq ▸ hgiven) hgiven'
  · exact absurd (heq ▸ hold') hnew
  · exact absurd (heq ▸ htaken) hnew'
  · exact absurd (heq ▸ hold) hnew'
  -- two types that keep their name are of one symbol, and of a symbol one type does
  · have hsame : s = s' := by
      refine set.groups.eq_of_name_eq hs hs' ?_
      rw [← set.groups.name_eq hs hmem, ← set.groups.name_eq hs' hmem', ← hname, ← hname', heq]
    subst hsame
    refine h.eq_of_declaration_eq hx hy ?_
    exact eq_of_origin_eq (h.mem_declarations hx) (h.mem_declarations hy)
      (Option.some.inj (hwinner.symm.trans hwinner'))
  · exact absurd (heq ▸ htaken) hnew'
  · exact absurd (heq ▸ htaken') hnew
  · exact absurd (heq ▸ htaken') hnew
  -- two names that types got when they were placed
  · exact List.inj_on_of_nodup_map h.takes.nodup hgiven hgiven' heq

/-- A name that a type is not declared with is one that no type is declared with. -/
theorem not_taken_of_ne (h : PlacedFor set p decisions between xs after) {x : Placed} (hx : x ∈ xs)
    (hne : x.outputName ≠ x.declaration.name) : ¬ (declaredNames set).Taken x.outputName := by
  rcases h.named hx with ⟨-, hnew, -⟩ | ⟨hname, -, -, -⟩ | ⟨-, hnew⟩
  · exact hnew
  · exact absurd hname hne
  · exact fun htaken => hnew (h.decided.takes.mono htaken)

end PlacedFor

end Plan

/-! ## Places of all types -/

namespace Plan

open Internalization ModuleSet

variable {set : ModuleSet} {plan : Plan} {p : Policy}

/-- The qualified name that a type has in the output, if it has a place of its own there. -/
def outputName? (plan : Plan) (d : Declaration) : Option String :=
  match plan.placement? d.origin with
  | some (.emit name _) => some (qualifiedName d.type.namespaceName name)
  | _ => none

theorem exists_outputName? {d : Declaration} (h : plan.emits d.origin) :
    ∃ name, plan.outputName? d = some name := by
  unfold emits at h
  split at h
  case h_1 name hide hplace =>
    refine ⟨qualifiedName d.type.namespaceName name, ?_⟩
    unfold outputName?
    rw [hplace]
  case h_2 => cases h

/-- The places of all types of a set of modules fit together. -/
structure Places (set : ModuleSet) (plan : Plan) : Prop where
  /-- Every type has one place. -/
  once : (plan.placements.map Prod.fst).Perm (set.declarations.map Declaration.origin)
  /-- A type can only become part of an earlier one of its name, which has a place of its own. -/
  joined : ∀ d ∈ set.declarations, ∀ target, plan.placement? d.origin = some (.into target) →
    ∃ first ∈ set.declarations, first.origin = target ∧ plan.emits target ∧ first.name = d.name ∧
      target.Before d.origin
  /-- Types of the output differ in their names. -/
  distinct : ∀ d ∈ set.declarations, ∀ e ∈ set.declarations, ∀ name,
    plan.outputName? d = some name → plan.outputName? e = some name → d = e
  /-- A new name is one that no type is declared with. -/
  fresh : ∀ d ∈ set.declarations, ∀ name, plan.outputName? d = some name → name ≠ d.name →
    ∀ e ∈ set.declarations, e.name ≠ name

/-! ## Where the types of a plan are placed -/

section Placed

variable {decisions : Decisions} {between after : FreshNames} {xs : List Placed}

/-- The places of the types that are placed and of those that become part of others. -/
abbrev placementsOf (xs : List Placed) (merged : Merged) : List (Origin × Placement) :=
  xs.map (fun x => (x.declaration.origin, .emit x.name x.hide)) ++
    merged.map fun (origin, target) => (origin, .into target)

theorem PlacedFor.once (h : PlacedFor set p decisions between xs after) :
    ((placementsOf xs (mergedIn set p)).map Prod.fst).Perm
      (set.declarations.map Declaration.origin) := by
  have hperm := h.perm.map Declaration.origin
  have hmerged : (mergedIn set p).map Prod.fst =
      ((SymbolTable.ofSet set).symbols.flatMap (joined p)).map Declaration.origin := by
    unfold mergedIn mergedOf
    rw [List.map_flatMap, List.map_flatMap]
    refine List.flatMap_congr fun s _ => ?_
    rw [List.map_map]
    rfl
  rw [List.map_append, List.map_map, ← hmerged] at hperm
  rw [List.map_append, List.map_map, List.map_map]
  exact hperm

/-- A type with a place of its own is one of those that are placed. -/
theorem PlacedFor.exists_emitted (h : PlacedFor set p decisions between xs after)
    (hplan : plan.placements = placementsOf xs (mergedIn set p)) {d : Declaration}
    (hd : d ∈ set.declarations) {name : String} {hide : Bool}
    (hplace : plan.placement? d.origin = some (.emit name hide)) : ⟨d, name, hide⟩ ∈ xs := by
  rw [placement?, hplan, lookup_eq_some_iff_mem (h.once.nodup_iff.2 set.nodup_origins)] at hplace
  rcases List.mem_append.1 hplace with howned | hmerged
  · obtain ⟨⟨e, given, hides⟩, hx, heq⟩ := List.mem_map.1 howned
    obtain ⟨horigin, hemit⟩ := Prod.mk.inj heq
    obtain ⟨rfl, rfl⟩ := Placement.emit.inj hemit
    obtain rfl : e = d := eq_of_origin_eq (h.mem_declarations hx) hd horigin
    exact hx
  · obtain ⟨_, _, heq⟩ := List.mem_map.1 hmerged
    cases (Prod.mk.inj heq).2

/-- The types that have places of their own are those that are placed. -/
theorem PlacedFor.exists_placed (h : PlacedFor set p decisions between xs after)
    (hplan : plan.placements = placementsOf xs (mergedIn set p)) {d : Declaration}
    (hd : d ∈ set.declarations) {name : String} (hname : plan.outputName? d = some name) :
    ∃ x ∈ xs, x.declaration = d ∧ x.outputName = name := by
  unfold outputName? at hname
  split at hname
  case h_2 => cases hname
  case h_1 given hide hplace =>
    exact ⟨_, h.exists_emitted hplan hd hplace, rfl, Option.some.inj hname⟩

/-- A type that becomes part of another one fits the first type of its name. -/
theorem PlacedFor.exists_joined (h : PlacedFor set p decisions between xs after)
    (hplan : plan.placements = placementsOf xs (mergedIn set p)) {d : Declaration}
    (hd : d ∈ set.declarations) {target : Origin}
    (hplace : plan.placement? d.origin = some (.into target)) :
    ∃ s ∈ (SymbolTable.ofSet set).symbols, d ∈ joined p s ∧ s.first.origin = target := by
  have hnodup := h.once.nodup_iff.2 set.nodup_origins
  rw [placement?, hplan, lookup_eq_some_iff_mem hnodup] at hplace
  rcases List.mem_append.1 hplace with howned | hmerged
  · obtain ⟨_, _, heq⟩ := List.mem_map.1 howned
    exact nomatch (Prod.mk.inj heq).2
  · obtain ⟨⟨_, _⟩, hentry, heq⟩ := List.mem_map.1 hmerged
    obtain ⟨rfl, hinto⟩ := Prod.mk.inj heq
    obtain rfl := Placement.into.inj hinto
    obtain ⟨s, hs, e, he, horigin, rfl⟩ := mem_mergedIn.1 hentry
    have hcontributor : e ∈ s.contributors := List.mem_cons_of_mem _ (List.mem_filter.1 he).1
    obtain rfl := eq_of_origin_eq (mem_declarations_of_mem hs hcontributor) hd horigin
    exact ⟨s, hs, he, rfl⟩

/-- The first type of a symbol has a place of its own. -/
theorem PlacedFor.emits_first (h : PlacedFor set p decisions between xs after)
    (hplan : plan.placements = placementsOf xs (mergedIn set p)) {s : Symbol}
    (hs : s ∈ (SymbolTable.ofSet set).symbols) : plan.emits s.first.origin := by
  have hmem : s.first ∈ xs.map Placed.declaration := by
    rw [h.all.declarations]
    refine List.mem_flatMap.2 ⟨s, hs, ?_⟩
    rw [remainingOf, filter_isMerged_eq hs]
    exact first_mem_remaining hs
  obtain ⟨x, hx, hfirst⟩ := List.mem_map.1 hmem
  have hemit : plan.placement? s.first.origin = some (.emit x.name x.hide) := by
    rw [placement?, hplan, lookup_eq_some_iff_mem (h.once.nodup_iff.2 set.nodup_origins)]
    exact List.mem_append_left _ (List.mem_map.2 ⟨x, hx, by rw [hfirst]⟩)
  rw [emits, hemit]

theorem PlacedFor.places (h : PlacedFor set p decisions between xs after)
    (hplan : plan.placements = placementsOf xs (mergedIn set p)) : plan.Places set := by
  constructor
  · rw [hplan]
    exact h.once
  · intro d hd target hplace
    obtain ⟨s, hs, hjoined, rfl⟩ := h.exists_joined hplan hd hplace
    have hothers := (List.mem_filter.1 hjoined).1
    refine ⟨s.first, mem_declarations_of_mem hs List.mem_cons_self, rfl, h.emits_first hplan hs, ?_, ?_⟩
    · rw [set.groups.name_eq hs List.mem_cons_self,
        set.groups.name_eq hs (List.mem_cons_of_mem _ hothers)]
    · -- the types of a symbol stand in the order of declarations
      have hpairwise := set.pairwise_before.filter (·.name == s.name)
      rw [← set.groups.contributors s hs] at hpairwise
      exact (List.pairwise_cons.1 hpairwise).1 d hothers
  · intro d hd e he name hname hname'
    obtain ⟨x, hx, rfl, hxname⟩ := h.exists_placed hplan hd hname
    obtain ⟨y, hy, rfl, hyname⟩ := h.exists_placed hplan he hname'
    rw [h.eq_of_outputName_eq hx hy (hxname.trans hyname.symm)]
  · intro d hd name hname hne e he heq
    obtain ⟨x, hx, rfl, rfl⟩ := h.exists_placed hplan hd hname
    refine h.not_taken_of_ne hx hne ?_
    rw [declaredNames, FreshNames.taken_of, ← heq]
    exact List.mem_map_of_mem he

/-- A plan that has been made places types in this way, and tells of their new names and of how many of
them are hidden. -/
theorem exists_placing {log : Log}
    (h : ((build set (.ofSet set) p).run.run log).1 = .ok plan) :
    ∃ xs decisions between after, PlacedFor set p decisions between xs after ∧
      plan.placements = placementsOf xs (mergedIn set p) ∧ plan.renames = xs.filterMap renameOf? ∧
      plan.hidden = (xs.filter Placed.hide).length := by
  by_cases hfree : ∃ name, set.Contested p name
  · obtain ⟨name, hname⟩ := hfree
    obtain ⟨d, first, second, rest, -, -, hresult⟩ := build_conflict hname
    exact nomatch (hresult log).symm.trans h
  · obtain ⟨plan', xs, decisions, between, after, hplan, hplaced, hplacements, htold⟩ :=
      build_ok (fun name hname => hfree ⟨name, hname⟩) log
    obtain rfl := Except.ok.inj (h.symm.trans hplan)
    exact ⟨xs, decisions, between, after, hplaced, hplacements, htold⟩

theorem exists_placedFor {log : Log}
    (h : ((build set (.ofSet set) p).run.run log).1 = .ok plan) :
    ∃ xs decisions between after, PlacedFor set p decisions between xs after ∧
      plan.placements = placementsOf xs (mergedIn set p) := by
  obtain ⟨xs, decisions, between, after, hplaced, hplacements, -⟩ := exists_placing h
  exact ⟨xs, decisions, between, after, hplaced, hplacements⟩

end Placed

/-! ## Shapes for a plan -/

open Shape Shaping

/-- Every type has a place. -/
theorem Places.exists_placement (h : plan.Places set) {d : Declaration} (hd : d ∈ set.declarations) :
    ∃ placement, plan.placement? d.origin = some placement := by
  have hmem := h.once.symm.subset (List.mem_map_of_mem hd)
  rcases hplace : plan.placement? d.origin with _ | placement
  · obtain ⟨entry, hentry, horigin⟩ := List.mem_map.1 hmem
    have hne := List.lookup_eq_none_iff.1 hplace entry hentry
    rw [horigin, bne_self_eq_false] at hne
    exact nomatch hne
  · exact ⟨placement, rfl⟩

/-- A declaration with a place gets it, if the types before it have got theirs. -/
theorem Places.placeDeclaration_reaches (h : plan.Places set) {l : Linkage}
    {done rest : List Declaration} {d : Declaration} (hdone : done ++ d :: rest = set.declarations)
    {shapes : PlacedShapes}
    (hshapes : shapes.map Prod.fst = (done.filter fun e => plan.emits e.origin).map Declaration.origin) :
    Reaches (placeDeclaration l plan shapes d) fun shapes' => shapes'.map Prod.fst =
      ((done ++ [d]).filter fun e => plan.emits e.origin).map Declaration.origin := by
  have hd : d ∈ set.declarations := by simp [← hdone]
  unfold placeDeclaration
  dsimp only
  rw [List.filter_append, List.map_append, ← hshapes, List.filter_cons, List.filter_nil]
  split
  case h_1 hnone =>
    obtain ⟨placement, hplace⟩ := h.exists_placement hd
    exact nomatch hnone.symm.trans hplace
  case h_2 name hide hplace =>
    have hemits : plan.emits d.origin := by
      rw [emits, hplace]
    refine (Reaches.lift _).bind fun s _ => .pure ?_
    rw [if_pos hemits, List.map_append]
    rfl
  case h_3 target hplace =>
    have hemits : ¬ plan.emits d.origin := by
      rw [emits, hplace]
      exact Bool.false_ne_true
    obtain ⟨first, hfirst, rfl, htarget, -, hbefore⟩ := h.joined d hd target hplace
    -- the other type is among those that are done with
    have hmem : first ∈ done := by
      rw [← hdone] at hfirst
      have horder := set.pairwise_before
      rw [← hdone, List.pairwise_append, List.pairwise_cons] at horder
      rcases List.mem_append.1 hfirst with hmem | hmem
      · exact hmem
      · rcases List.mem_cons.1 hmem with rfl | hlater
        · exact absurd rfl hbefore.ne
        · exact absurd hbefore (horder.2.1.1 first hlater).asymm
    have hshape : first.origin ∈ shapes.map Prod.fst := by
      rw [hshapes]
      exact List.mem_map_of_mem (List.mem_filter.2 ⟨hmem, htarget⟩)
    split
    case h_1 hnone =>
      obtain ⟨shape, hshape, horigin⟩ := List.mem_map.1 hshape
      have hne := List.lookup_eq_none_iff.1 hnone shape hshape
      rw [horigin, bne_self_eq_false] at hne
      cases hne
    case h_2 s hlookup =>
      refine (Reaches.lift _).bind fun _ _ => (Reaches.lift _).bind fun s' _ => .pure ?_
      rw [if_neg hemits, List.map_nil, List.append_nil, update, List.map_map]
      rfl

/-- With a place for every type nothing stops the shapes from being made. -/
theorem Places.buildAll_reaches (h : plan.Places set) {l : Linkage} (hset : l.set = set) :
    Reaches (buildAll l plan) fun _ => True := by
  unfold buildAll
  rw [hset]
  refine Reaches.bind (Reaches.foldlM (motive := fun done (shapes : PlacedShapes) =>
    shapes.map Prod.fst = (done.filter fun d => plan.emits d.origin).map Declaration.origin)
    rfl ?_) fun _ _ => .pure trivial
  intro done d rest hdone shapes hshapes
  exact h.placeDeclaration_reaches hdone hshapes

theorem places_of_build {p : Policy} {log : Log}
    (h : ((build set (.ofSet set) p).run.run log).1 = .ok plan) : plan.Places set := by
  obtain ⟨xs, decisions, between, after, hplaced, hplacements⟩ := exists_placedFor h
  exact hplaced.places hplacements

end Plan

/-! ## What a plan tells of new names

A plan lists, for every module, the types of that module which have a place of their own under another
name than the declared one, with both names. Types that become part of others are not listed, whatever
the name of the type that they become part of is.
-/

namespace Plan

open Internalization ModuleSet

variable {set : ModuleSet} {plan : Plan} {p : Policy} {log : Log} {decisions : Decisions}
  {between after : FreshNames} {xs : List Placed}

/-- A placed type has the place that it was given. -/
theorem PlacedFor.outputName?_eq (h : PlacedFor set p decisions between xs after)
    (hplan : plan.placements = placementsOf xs (mergedIn set p)) {x : Placed} (hx : x ∈ xs) :
    plan.outputName? x.declaration = some x.outputName := by
  have hplace : plan.placement? x.declaration.origin = some (.emit x.name x.hide) := by
    rw [placement?, hplan, lookup_eq_some_iff_mem (h.once.nodup_iff.2 set.nodup_origins)]
    exact List.mem_append_left _ (List.mem_map.2 ⟨x, hx, rfl⟩)
  rw [outputName?, hplace]
  rfl

/-- The rename of a placed type is listed if its name in the output is a new one. -/
theorem renameOf?_eq_some_iff {x : Placed} {r : Rename} : renameOf? x = some r ↔
    x.outputName ≠ x.declaration.name ∧
      r = ⟨x.declaration.origin.module, x.declaration.name, x.outputName⟩ := by
  have hname : x.outputName = x.declaration.name ↔ x.name = x.declaration.type.name :=
    (qualifiedName_injective _).eq_iff
  rw [Ne, hname, renameOf?]
  split
  case isTrue hsame => exact iff_of_false nofun fun h => h.1 hsame
  case isFalse hne => rw [Option.some_inj, and_iff_right hne, Placed.outputName, eq_comm]

/-- The renames of a module are those of its types that have places of their own under new names. -/
theorem mem_renamesOf (h : ((build set (.ofSet set) p).run.run log).1 = .ok plan) {i : Nat}
    {old new : String} : (old, new) ∈ plan.renamesOf i ↔ ∃ d ∈ set.declarations,
      d.origin.module = i ∧ d.name = old ∧ plan.outputName? d = some new ∧ new ≠ old := by
  obtain ⟨xs, decisions, between, after, hplaced, hplacements, hrenames, -⟩ := exists_placing h
  rw [renamesOf, List.mem_map, hrenames]
  constructor
  · rintro ⟨r, hr, heq⟩
    obtain ⟨hmem, hmodule⟩ := List.mem_filter.1 hr
    obtain ⟨x, hx, hrename⟩ := List.mem_filterMap.1 hmem
    obtain ⟨hne, rfl⟩ := renameOf?_eq_some_iff.1 hrename
    obtain ⟨rfl, rfl⟩ := Prod.mk.inj heq
    exact ⟨_, hplaced.mem_declarations hx, beq_iff_eq.1 hmodule, rfl,
      hplaced.outputName?_eq hplacements hx, hne⟩
  · rintro ⟨d, hd, rfl, rfl, hname, hne⟩
    obtain ⟨x, hx, rfl, rfl⟩ := hplaced.exists_placed hplacements hd hname
    refine ⟨_, List.mem_filter.2 ⟨List.mem_filterMap.2 ⟨x, hx, renameOf?_eq_some_iff.2 ⟨hne, rfl⟩⟩, ?_⟩,
      rfl⟩
    exact beq_self_eq_true _

end Plan

end ModuleLinker
