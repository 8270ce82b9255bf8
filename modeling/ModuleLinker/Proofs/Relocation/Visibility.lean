import ModuleLinker.Proofs.Plan.Placement
import ModuleLinker.Proofs.Relocation.Counterparts
import ModuleLinker.Proofs.Traversal

namespace ModuleLinker

/-! # Types that are hidden, and types that stay public

The types that a plan hides are those that have places of their own, are public and selected by the
policy. Such a type gets a new name if that is asked for, or if another type with a place of its own
claims its name; otherwise it is the only one left of its name, and keeps it.

A public type that the policy does not select to be hidden stays public under its name if it stays a
type of its own. If it becomes part of another type, that one is what decides: visibility and name are
those of the type that claimed the name first.
-/

/-! ## Which types are hidden -/

namespace Internalization

open ModuleSet Plan

variable {set : ModuleSet} {p : Policy} {d : Declaration}

/-- A type collides with the others of its name that do not become part of another one. -/
theorem collides_iff (hd : d ∈ set.declarations) :
    collides (.ofSet set) (mergedIn set p) d ↔
      ∃ e ∈ set.declarations, e.origin ≠ d.origin ∧ e.name = d.name ∧ ¬ set.joins p e := by
  obtain ⟨s, hs, -, hmem⟩ := set.groups.exists_symbol hd
  have hsymbol : (SymbolTable.ofSet set).symbolOf? d.origin = some s :=
    ((SymbolTable.indexes_indexed set).symbolOf d.origin s).2 ⟨hs, d, hmem, rfl⟩
  rw [collides, hsymbol, Option.any_some, List.any_eq_true]
  constructor
  · rintro ⟨e, he, hcounts⟩
    obtain ⟨hne, hstays⟩ := (Bool.and_eq_true _ _).mp hcounts
    have hdeclared := mem_declarations_of_mem hs he
    refine ⟨e, hdeclared, by simpa using hne, ?_, ?_⟩
    · rw [set.groups.name_eq hs he, set.groups.name_eq hs hmem]
    · rw [← isMerged_iff hdeclared]
      simpa using hstays
  · rintro ⟨e, he, hne, hname, hstays⟩
    refine ⟨e, ?_, ?_⟩
    · rw [set.groups.contributors s hs]
      exact List.mem_filter.2 ⟨he, by simp [hname, set.groups.name_eq hs hmem]⟩
    · rw [← isMerged_iff he] at hstays
      simp [hne, hstays]

end Internalization

namespace Plan

open Internalization ModuleSet

variable {set : ModuleSet} {plan : Plan} {p : Policy} {log : Log} {decisions : Decisions}
  {between after : FreshNames} {xs : List Placed} {d : Declaration}

/-- Whether the policy hides a type that has a place of its own. -/
def hides (p : Policy) (d : Declaration) : Bool := d.type.flags.isPublic && p.selects d

/-- The only type of a symbol that is left, without a new name, keeps that of the symbol. -/
theorem winner?_of_sole {merged : Merged} {s : Symbol} (hd : d ∈ remainingOf merged s)
    (hsole : ∀ e ∈ remainingOf merged s, e = d) (hkeeps : ¬ (decisionOn decisions d.origin).isRename) :
    winner? decisions merged s = some d.origin := by
  have hmem : d ∈ keepers decisions (remainingOf merged s) :=
    List.mem_filter.2 ⟨hd, by simpa using hkeeps⟩
  have hall : ∀ e ∈ keepers decisions (remainingOf merged s), e = d :=
    fun e he => hsole e (List.mem_filter.1 he).1
  rw [winner?]
  rcases hpublic : publicKeepers decisions (remainingOf merged s) with _ | ⟨first, rest⟩
  · rcases hkeepers : keepers decisions (remainingOf merged s) with _ | ⟨first, rest⟩
    · exact absurd (hkeepers ▸ hmem) List.not_mem_nil
    · rw [hkeepers] at hall
      rw [← hall first List.mem_cons_self]
      rfl
  · have hfirst : first ∈ publicKeepers decisions (remainingOf merged s) :=
      hpublic ▸ List.mem_cons_self
    rw [← hall first (List.mem_filter.1 hfirst).1]
    rfl

namespace PlacedFor

/-- A placed type is hidden exactly if it is public and selected. -/
theorem hide_iff (h : PlacedFor set p decisions between xs after) {x : Placed} (hx : x ∈ xs) :
    x.hide ↔ hides p x.declaration := by
  obtain ⟨s, -, hremaining, hplaced⟩ := h.all.placed x hx
  have hmerged := (List.mem_filter.1 hremaining).2
  have hkeep := h.decided.keep_iff x.declaration (h.mem_declarations hx)
  rw [changes, hmerged, Bool.true_and] at hkeep
  rw [hplaced.hide, bne_iff_ne, Ne, hkeep, not_not]
  rfl

/-- A type that is hidden has a new name exactly if another type of its name stays apart, or if that is
asked for. -/
theorem renamed_iff (h : PlacedFor set p decisions between xs after) {x : Placed} (hx : x ∈ xs)
    (hhide : x.hide) : x.name ≠ x.declaration.type.name ↔
      collides (.ofSet set) (mergedIn set p) x.declaration ∨ p.options.renameInternalized := by
  have hmem := h.mem_declarations hx
  obtain ⟨s, hs, hremaining, hplaced⟩ := h.all.placed x hx
  have hchanges : changes p (mergedIn set p) x.declaration := by
    by_contra hstays
    have hkeep := (h.decided.keep_iff x.declaration hmem).2 hstays
    rw [hplaced.hide, hkeep] at hhide
    exact absurd hhide (by decide)
  have hrename := h.decided.rename_iff x.declaration hmem hchanges
  rw [← hrename]
  constructor
  · -- without a collision the type is the only one left of its name
    intro hne
    by_contra hkeeps
    refine hne ((hplaced.kept hkeeps).2 (winner?_of_sole hremaining ?_ hkeeps))
    intro e he
    obtain ⟨hcontributor, hstays⟩ := List.mem_filter.1 he
    have hdeclared := mem_declarations_of_mem hs hcontributor
    by_contra hother
    refine hkeeps (hrename.2 (.inl ((collides_iff hmem).2 ⟨e, hdeclared, ?_, ?_, ?_⟩)))
    · exact fun heq => hother (eq_of_origin_eq hdeclared hmem heq)
    · rw [set.groups.name_eq hs hcontributor, set.groups.name_eq hs (List.mem_filter.1 hremaining).1]
    · rw [← isMerged_iff hdeclared]
      simpa using hstays
  · -- the new name is not one that types are declared with
    intro hdecided hname
    refine (h.decidedName hx hdecided).2.1 ?_
    rw [outputName_eq_of_name_eq hname]
    exact taken_declaredNames hs hremaining

/-- The types that have places of their own are those that do not become part of another one. -/
theorem emits_iff (h : PlacedFor set p decisions between xs after)
    (hplan : plan.placements = placementsOf xs (mergedIn set p)) (hd : d ∈ set.declarations) :
    plan.emits d.origin ↔ ¬ set.joins p d := by
  constructor
  · intro hemits
    obtain ⟨name, hname⟩ := exists_outputName? hemits
    obtain ⟨x, hx, rfl, -⟩ := h.exists_placed hplan hd hname
    obtain ⟨s, -, hremaining, -⟩ := h.all.placed x hx
    rw [← isMerged_iff hd]
    simpa using (List.mem_filter.1 hremaining).2
  · intro hstays
    obtain ⟨placement, hplace⟩ := (h.places hplan).exists_placement hd
    cases placement with
    | emit name hide => rw [emits, hplace]
    | into target =>
      obtain ⟨s, hs, hjoined, -⟩ := h.exists_joined hplan hd hplace
      obtain ⟨hothers, hjoins⟩ := List.mem_filter.1 hjoined
      exact absurd ((joins_iff hs (List.mem_cons_of_mem _ hothers)).2 ⟨hothers, hjoins⟩) hstays

/-- What is placed are the types that have places of their own. -/
theorem declarations_perm (h : PlacedFor set p decisions between xs after)
    (hplan : plan.placements = placementsOf xs (mergedIn set p)) :
    (xs.map Placed.declaration).Perm (set.emitted plan) := by
  have hnodup := (h.perm.nodup_iff.2 set.nodup_declarations).of_append_left
  refine (List.perm_ext_iff_of_nodup hnodup (set.nodup_declarations.filter _)).2 fun d => ?_
  constructor
  · intro hd
    obtain ⟨x, hx, rfl⟩ := List.mem_map.1 hd
    have hmem := h.mem_declarations hx
    obtain ⟨s, -, hremaining, -⟩ := h.all.placed x hx
    refine List.mem_filter.2 ⟨hmem, (h.emits_iff hplan hmem).2 ?_⟩
    rw [← isMerged_iff hmem]
    simpa using (List.mem_filter.1 hremaining).2
  · intro hd
    obtain ⟨hmem, hemits⟩ := List.mem_filter.1 hd
    obtain ⟨name, hname⟩ := exists_outputName? hemits
    obtain ⟨x, hx, rfl, -⟩ := h.exists_placed hplan hmem hname
    exact List.mem_map_of_mem hx

theorem hidden_eq (h : PlacedFor set p decisions between xs after)
    (hplan : plan.placements = placementsOf xs (mergedIn set p)) :
    (xs.filter Placed.hide).length = ((set.emitted plan).filter (hides p)).length := by
  rw [← ((h.declarations_perm hplan).filter _).length_eq, List.filter_map, List.length_map]
  refine congrArg List.length (List.filter_congr fun x hx => ?_)
  exact Bool.eq_iff_iff.2 (h.hide_iff hx)

end PlacedFor

/-- In a plan that has been made, the types with places of their own are those that do not become part of
another one. -/
theorem emits_iff_of_build (h : ((build set (.ofSet set) p).run.run log).1 = .ok plan)
    (hd : d ∈ set.declarations) : plan.emits d.origin ↔ ¬ set.joins p d := by
  obtain ⟨xs, decisions, between, after, hplaced, hplacements⟩ := exists_placedFor h
  exact hplaced.emits_iff hplacements hd

/-- How a plan places a type of its own: it hides those that are public and selected, and of these it
renames the ones that share their names. -/
theorem hide_iff_of_build (h : ((build set (.ofSet set) p).run.run log).1 = .ok plan)
    (hd : d ∈ set.declarations) {name : String} {hide : Bool}
    (hplace : plan.placement? d.origin = some (.emit name hide)) :
    hide = hides p d ∧ (hide → (name ≠ d.type.name ↔
      (∃ e ∈ set.emitted plan, e.origin ≠ d.origin ∧ e.name = d.name) ∨
        p.options.renameInternalized)) := by
  obtain ⟨xs, decisions, between, after, hplaced, hplacements⟩ := exists_placedFor h
  have hx := hplaced.exists_emitted hplacements hd hplace
  refine ⟨Bool.eq_iff_iff.2 (hplaced.hide_iff hx), fun hhide => ?_⟩
  rw [hplaced.renamed_iff hx hhide, collides_iff hd]
  refine or_congr_left (exists_congr fun e => ?_)
  rw [ModuleSet.emitted, List.mem_filter, and_assoc]
  refine and_congr_right fun he => ?_
  rw [hplaced.emits_iff hplacements he]
  tauto

/-- A plan counts the types that it hides. -/
theorem hidden_eq_of_build (h : ((build set (.ofSet set) p).run.run log).1 = .ok plan) :
    plan.hidden = ((set.emitted plan).filter (hides p)).length := by
  obtain ⟨xs, decisions, between, after, hplaced, hplacements, -, hhidden⟩ := exists_placing h
  rw [hhidden, hplaced.hidden_eq hplacements]

end Plan

/-! ## Types that stay public -/

namespace TypeFlags

theorem or_and_eq (a b c : UInt32) : (a ||| b) &&& c = (a &&& c) ||| (b &&& c) :=
  UInt32.toBitVec_inj.1 BitVec.and_or_distrib_right

/-- A visibility takes the place of that of the flags. -/
theorem visibility_withVisibility (flags source : TypeFlags) :
    (flags.withVisibility source).visibility = source.visibility := by
  simp only [visibility, withVisibility]
  rw [or_and_eq, UInt32.and_assoc, UInt32.not_and_self, UInt32.and_zero, UInt32.zero_or,
    UInt32.and_assoc, UInt32.and_self]

/-- The other bits stay as they are. -/
theorem rest_withVisibility (flags source : TypeFlags) :
    (flags.withVisibility source).bits &&& ~~~visibilityMask = flags.bits &&& ~~~visibilityMask := by
  simp only [visibility, withVisibility]
  rw [or_and_eq, UInt32.and_assoc, UInt32.and_self, UInt32.and_assoc, UInt32.and_not_self,
    UInt32.and_zero, UInt32.or_zero]

/-- A type that is hidden is not public. -/
theorem isPublic_withVisibility_notPublic (flags : TypeFlags) :
    (flags.withVisibility .notPublic).isPublic = false := by
  rw [isPublic, visibility_withVisibility]
  rfl

end TypeFlags

namespace Plan

open Internalization ModuleSet

variable {set : ModuleSet} {plan : Plan} {p : Policy} {log : Log}

/-- Of the types that are placed, exactly those that are public and not selected stay public under
their names. -/
theorem PlacedFor.exposed_iff {decisions : Decisions} {between after : FreshNames} {xs : List Placed}
    (h : PlacedFor set p decisions between xs after) (hfree : ∀ name, ¬ set.Contested p name)
    {x : Placed} (hx : x ∈ xs) :
    (x.declaration.type.flags.isPublic ∧ ¬ x.hide ∧ x.name = x.declaration.type.name) ↔
      x.declaration.type.flags.isPublic ∧ ¬ p.selects x.declaration := by
  refine and_congr_right fun hpublic => ?_
  have hhide : ¬ x.hide ↔ ¬ p.selects x.declaration := by
    rw [h.hide_iff hx, hides, hpublic, Bool.true_and]
  rw [hhide]
  refine ⟨And.left, fun hselects => ⟨hselects, ?_⟩⟩
  obtain ⟨s, hs, hremaining, hplaced⟩ := h.all.placed x hx
  have hkept : decisionOn decisions x.declaration.origin = .keep := by
    have hshown := hhide.2 hselects
    rw [hplaced.hide] at hshown
    simpa using hshown
  have hrename : ¬ (decisionOn decisions x.declaration.origin).isRename := by
    rw [hkept]
    exact Bool.false_ne_true
  rw [hplaced.kept hrename]
  -- it is the only type that stays public under the name, and so the one that keeps it
  have hmem : x.declaration ∈ publicKeepers decisions (remainingOf (mergedIn set p) s) := by
    refine List.mem_filter.2 ⟨List.mem_filter.2 ⟨hremaining, by simpa using hrename⟩, ?_⟩
    simp [hkept, hpublic]
  have hnone := (conflict?_eq_none_iff h.decided hs).2 (hfree s.name)
  unfold conflict? at hnone
  unfold winner?
  split at hnone
  case h_1 => exact nomatch hnone
  case h_2 visible hvisible =>
    rcases hcase : publicKeepers decisions (remainingOf (mergedIn set p) s) with
      _ | ⟨first, _ | ⟨second, rest⟩⟩
    · exact absurd (hcase ▸ hmem) List.not_mem_nil
    · rw [hcase, List.mem_singleton] at hmem
      rw [hmem]
      rfl
    · exact absurd hcase (hvisible first second rest)

/-- What a type of its own looks like in the output. -/
theorem build_exposed_iff (h : ((build set (.ofSet set) p).run.run log).1 = .ok plan) {d : Declaration}
    (hd : d ∈ set.declarations) {name : String} {hide : Bool}
    (hplace : plan.placement? d.origin = some (.emit name hide)) :
    ((if hide then d.type.flags.withVisibility .notPublic else d.type.flags).isPublic ∧
        name = d.type.name) ↔ d.type.flags.isPublic ∧ ¬ p.selects d := by
  obtain ⟨xs, decisions, between, after, hplaced, hplacements⟩ := exists_placedFor h
  have hx := hplaced.exists_emitted hplacements hd hplace
  rw [← hplaced.exposed_iff (not_contested_of_build h) hx]
  cases hide with
  | true => simp [TypeFlags.isPublic_withVisibility_notPublic]
  | false => simp

end Plan

namespace Relocation

variable {set : ModuleSet} {plan : Plan} {p : Policy} {log log' : Log} {out : Module}

/-- A public type that the policy does not select goes into a type of the output. This one is public
and has its name if and only if the type that it started from is public and not selected either. -/
theorem run_public_iff (hplan : ((Plan.build set (.ofSet set) p).run.run log).1 = .ok plan)
    (hrun : ((run set plan p).run.run log').1 = .ok out) :
    ∀ d ∈ set.declarations, d.type.flags.isPublic → ¬ p.selects d →
      ∃ first t, (first, t) ∈ (set.emitted plan).zip out.types ∧ plan.GoesInto d first.origin ∧
        (t.flags.isPublic ∧ t.qualifiedName = d.name ↔
          first.type.flags.isPublic ∧ ¬ p.selects first) := by
  intro d hd hpublic hselects
  obtain ⟨shapes, sub, a, attributes, tables, log₁, hlayout, -, hwritten, -⟩ := run_ok hrun
  obtain ⟨rs, ⟨placed, rfl, hlanded⟩, -⟩ :=
    layOut_settles (Shape.buildAll_lands (.ofSet set p) plan) hlayout
  obtain ⟨q, hq, hgoes, -⟩ := hlanded.held d hd
  obtain ⟨first, hzip, horigin, hstands⟩ := exists_mem_zip hlanded (Shape.writeAll_ok _ hwritten).1 hq
  rw [horigin] at hgoes
  refine ⟨first, _, hzip, hgoes, ?_⟩
  have hfirst : first ∈ set.declarations := (List.mem_filter.1 (List.of_mem_zip hzip).1).1
  -- both types claim the same name
  have hname : first.name = d.name := by
    rcases hgoes with heq | hinto
    · rw [ModuleSet.eq_of_origin_eq hd hfirst heq]
    · obtain ⟨other, hother, heq, -, hsame, -⟩ := (Plan.places_of_build hplan).joined d hd _ hinto
      rw [← hsame, ModuleSet.eq_of_origin_eq hother hfirst heq]
  have himage : EmittedAs plan tables.substitution.counterpart first
      (q.2.image (.ofSet set p) tables.substitution) := emittedAs_image hstands
  obtain ⟨name, hide, hplace, hshape, hflags⟩ := himage.placed
  rw [← Plan.build_exposed_iff hplan hfirst hplace, ← hflags, ← hname]
  unfold TypeDef.qualifiedName Declaration.name TypeDef.qualifiedName
  rw [himage.namespaceName, hshape]
  exact and_congr_right fun _ => (qualifiedName_injective _).eq_iff

/-! ## A type that is to stay public -/

/-- A class `N.T` without members. -/
def bareType (flags : TypeFlags) : TypeDef :=
  ⟨⟨0x02000001⟩, "N", "T", flags, none, [], [], [], [], [], [], [], []⟩

/-- A module with some types. -/
def bareModule (name : String) (types : List TypeDef) : LoadedModule :=
  ⟨⟨name ++ ".dll"⟩, { Module.ofIdentity (.ofName name ⟨1, 0, 0, 0⟩) .dll with types }⟩

/-- A module that declares nothing, one with a public class, and one with a public class of the same
name whose values can be serialised. -/
def serializables : ModuleSet :=
  { primary := bareModule "A" [], others := [bareModule "B" [bareType ⟨0x1⟩],
      bareModule "C" [bareType ⟨0x2001⟩]], references := [], attributeSource := none }

/-- A policy that hides the types of all modules but the primary one, except those whose values can be
serialised, and makes one type of those with the same name. -/
def hidingPolicy : Policy :=
  { unionPolicy with
    options := { unionPolicy.options with internalize := true, keepSerializable := true } }

/-- The plan that this policy leads to. -/
def serializablesPlan : Plan :=
  { placements := [(⟨1, 0⟩, .emit "T" true), (⟨2, 0⟩, .into ⟨1, 0⟩)], resources := []
    attributes := [], renames := [], hidden := 1 }

/-- The class whose values can be serialised is to stay public, but it becomes part of one that is
hidden. -/
theorem run_hides_serializable :
    serializables.WellNumbered ∧ hidingPolicy.options.sharedNamespaces = [] ∧
    ((Plan.build serializables (.ofSet serializables) hidingPolicy).run.run []).1.toOption =
      some serializablesPlan ∧
    serializables.declarations.map (fun d => (d.origin.module, d.name, d.type.flags.isPublic,
      hidingPolicy.selects d)) = [(1, "N.T", true, true), (2, "N.T", true, false)] ∧
    ((run serializables serializablesPlan hidingPolicy).run.run []).1.toOption.map
      (fun out => out.types.map fun t => (t.qualifiedName, t.flags.isPublic)) =
        some [("N.T", false)] := by
  refine ⟨by decide, rfl, by decide +kernel, by decide +kernel, ?_⟩
  decide +kernel

theorem run_public_iff_serializables : ∃ out first t,
    ((Plan.build serializables (.ofSet serializables) hidingPolicy).run.run []).1 =
      .ok serializablesPlan ∧
    ((run serializables serializablesPlan hidingPolicy).run.run []).1 = .ok out ∧
    (first, t) ∈ (serializables.emitted serializablesPlan).zip out.types ∧
    (t.flags.isPublic ∧ t.qualifiedName = "N.T" ↔
      first.type.flags.isPublic ∧ ¬ hidingPolicy.selects first) := by
  have hbuilt : ((Plan.build serializables (.ofSet serializables) hidingPolicy).run.run []).1 =
      .ok serializablesPlan := by
    decide +kernel
  have hok : ((run serializables serializablesPlan hidingPolicy).run.run []).1.isOk := by
    decide +kernel
  obtain ⟨out, hrun⟩ := exists_eq_ok hok
  let d : Declaration := ⟨⟨2, 0⟩, (bareModule "C" [bareType ⟨0x2001⟩]).module, bareType ⟨0x2001⟩⟩
  have hd : d ∈ serializables.declarations := List.mem_cons_of_mem _ List.mem_cons_self
  obtain ⟨first, t, hzip, -, hiff⟩ :=
    run_public_iff hbuilt hrun d hd (by decide) (by decide +kernel)
  exact ⟨out, first, t, hbuilt, hrun, hzip, hiff⟩

end Relocation

end ModuleLinker
