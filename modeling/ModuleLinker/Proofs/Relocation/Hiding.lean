import ModuleLinker.Proofs.Plan.MemberIds
import ModuleLinker.Proofs.Relocation.NestedTypes

namespace ModuleLinker

/-! # Hidden types of the output

Of the types that have places of their own, those that are public and selected by the policy are no
longer visible, and nothing else of them is changed but the name where there are more of it. The others
keep their flags, and so do all nested types.
-/

namespace Relocation

open Plan

variable {set : ModuleSet} {plan : Plan} {p : Policy} {log log' : Log} {out : Module}

/-- What hiding makes of a type with a place of its own: only the visibility of those that are public and
selected is replaced, those of them that share their names are renamed, and what is nested in them is
left as it is. -/
structure HiddenAs (set : ModuleSet) (plan : Plan) (p : Policy) (s : Nat → Token → Token)
    (d : Declaration) (t : TypeDef) : Prop where
  emitted : EmittedAs plan s d t
  visibility : hides p d → t.flags.visibility = TypeFlags.notPublic.bits
  rest : t.flags.bits &&& ~~~TypeFlags.visibilityMask = d.type.flags.bits &&& ~~~TypeFlags.visibilityMask
  kept : ¬ hides p d → t.flags = d.type.flags
  renamed : hides p d → (t.name ≠ d.type.name ↔
    (∃ e ∈ set.emitted plan, e.origin ≠ d.origin ∧ e.name = d.name) ∨ p.options.renameInternalized)
  nested : NestsFrom s (Shape.contributors plan set.declarations d.origin) t

theorem hiddenAs_of_emittedAs (hplan : ((Plan.build set (.ofSet set) p).run.run log).1 = .ok plan)
    {s : Nat → Token → Token} {d : Declaration} (hd : d ∈ set.declarations) {t : TypeDef}
    (ht : EmittedAs plan s d t)
    (hnested : NestsFrom s (Shape.contributors plan set.declarations d.origin) t) :
    HiddenAs set plan p s d t := by
  obtain ⟨name, hide, hplace, rfl, hflags⟩ := ht.placed
  obtain ⟨rfl, hrenamed⟩ := hide_iff_of_build hplan hd hplace
  refine ⟨ht, fun hhide => ?_, ?_, fun hshown => ?_, hrenamed, hnested⟩
  · rw [hflags, if_pos hhide, TypeFlags.visibility_withVisibility]
    rfl
  · rw [hflags]
    split
    · exact TypeFlags.rest_withVisibility _ _
    · rfl
  · rw [hflags, if_neg hshown]

/-- Hiding changes the types that are public and selected, and no others: of those with a place of their
own, which are the ones that do not become part of another type, it replaces the visibility, and the
name if another one claims it or if that is asked for. All nested types are left as they are, and the
plan tells how many types are hidden. -/
theorem run_hides (hplan : ((Plan.build set (.ofSet set) p).run.run log).1 = .ok plan)
    (hrun : ((run set plan p).run.run log').1 = .ok out) :
    set.emitted plan = set.declarations.filter (fun d => !set.joins p d) ∧
      plan.hidden = ((set.emitted plan).filter (hides p)).length ∧
      ∃ s, List.Forall₂ (HiddenAs set plan p s) (set.emitted plan) out.types := by
  refine ⟨?_, hidden_eq_of_build hplan, ?_⟩
  · refine List.filter_congr fun d hd => ?_
    have hemits := emits_iff_of_build hplan hd
    rw [Bool.eq_iff_iff, hemits]
    simp
  · obtain ⟨s, hnests⟩ := run_nests hrun
    refine ⟨s, ?_⟩
    obtain ⟨hlength, hzip⟩ := List.forall₂_iff_zip.1 hnests
    refine List.forall₂_iff_zip.2 ⟨hlength, ?_⟩
    intro d t hmem
    obtain ⟨hemitted, hnested⟩ := hzip hmem
    have hd := (List.mem_filter.1 (List.of_mem_zip hmem).1).1
    exact hiddenAs_of_emittedAs hplan hd hemitted hnested

/-! ## A hidden type with a nested one -/

/-- A class `N.T` with a public class nested in it. -/
def wholeType (flags : TypeFlags) : TypeDef :=
  { bareType flags with
    nested := [{ bareType .nestedPublic with token := ⟨0x02000002⟩, namespaceName := "", name := "Part" }] }

/-- Two modules with public classes of one name, the second one abstract. -/
def wholes : ModuleSet :=
  { primary := bareModule "A" [wholeType ⟨0x1⟩], others := [bareModule "B" [wholeType ⟨0x81⟩]]
    references := [], attributeSource := none }

/-- A policy that hides the types of all modules but the primary one and makes no types one. -/
def partingPolicy : Policy :=
  { hidingPolicy with options := { hidingPolicy.options with unionMerge := false } }

/-- The plan that this policy leads to. -/
def wholesPlan : Plan :=
  { placements := [(⟨0, 0⟩, .emit "T" false), (⟨1, 0⟩, .emit "T_B" true)], resources := []
    attributes := [], renames := [⟨1, "N.T", "N.T_B"⟩], hidden := 1 }

theorem build_wholes :
    ((Plan.build wholes (.ofSet wholes) partingPolicy).run.run []).1 = .ok wholesPlan := by
  have hname : ((declaredNames wholes).rename "N" "T" "B").1 = "T_B" := by
    refine rename_of_letter ?_
    rw [declaredNames, FreshNames.taken_of]
    decide
  let x : Placed := ⟨⟨⟨1, 0⟩, (bareModule "B" [wholeType ⟨0x81⟩]).module, wholeType ⟨0x81⟩⟩,
    ((declaredNames wholes).rename "N" "T" "B").1, true⟩
  -- but for the new name the plan is what its definition says
  have hplan : ((Plan.build wholes (.ofSet wholes) partingPolicy).run.run []).1 = .ok
      { placements := [(⟨0, 0⟩, .emit "T" false), (⟨1, 0⟩, .emit x.name true)], resources := []
        attributes := [], renames := (renameOf? x).toList, hidden := 1 } := rfl
  rw [hplan]
  dsimp only [x]
  rw [hname]
  decide

/-- The class of the second module is hidden under a new name, and stays abstract; the one nested in it
stays public. -/
theorem run_hides_wholes : ∃ out t w,
    ((Plan.build wholes (.ofSet wholes) partingPolicy).run.run []).1 = .ok wholesPlan ∧
    ((run wholes wholesPlan partingPolicy).run.run []).1 = .ok out ∧
    t ∈ out.types ∧ t.name ≠ "T" ∧ t.flags.visibility = TypeFlags.notPublic.bits ∧
    t.flags.bits &&& ~~~TypeFlags.visibilityMask = 0x80 ∧ t.nested = [w] ∧
    w.flags = .nestedPublic := by
  have hok : ((run wholes wholesPlan partingPolicy).run.run []).1.isOk := by decide +kernel
  obtain ⟨out, hrun⟩ := exists_eq_ok hok
  obtain ⟨-, -, s, hall⟩ := run_hides build_wholes hrun
  let d : Declaration := ⟨⟨1, 0⟩, (bareModule "B" [wholeType ⟨0x81⟩]).module, wholeType ⟨0x81⟩⟩
  let first : Declaration := ⟨⟨0, 0⟩, (bareModule "A" [wholeType ⟨0x1⟩]).module, wholeType ⟨0x1⟩⟩
  have hemitted : wholes.emitted wholesPlan = [first, d] := rfl
  have hhides : hides partingPolicy d := by decide +kernel
  rw [hemitted] at hall
  obtain ⟨u, rest, -, hrest, htypes⟩ := List.forall₂_cons_left_iff.1 hall
  obtain ⟨t, more, hidden, -, rfl⟩ := List.forall₂_cons_left_iff.1 hrest
  -- the one nested type is that of the class itself
  have hheads := (nestsFrom_iff.1 hidden.nested).heads
  obtain ⟨w, inner, hw, hnone, hnested⟩ := List.forall₂_cons_left_iff.1 hheads
  obtain rfl := List.forall₂_nil_left_iff.1 hnone
  have hmem : t ∈ out.types := by simp [htypes]
  have hrenamed := (hidden.renamed hhides).2 (.inl ⟨first, List.mem_cons_self, by decide, rfl⟩)
  exact ⟨out, t, w, build_wholes, hrun, hmem, hrenamed, hidden.visibility hhides,
    hidden.rest.trans (by decide), hnested, hw.flags⟩

end Relocation

end ModuleLinker
