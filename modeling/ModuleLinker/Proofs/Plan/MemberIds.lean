import Mathlib.Data.List.TakeDrop
import ModuleLinker.Proofs.Plan.Primary
import ModuleLinker.Proofs.Plan.Placement
import ModuleLinker.Proofs.Relocation.Visibility
import ModuleLinker.Proofs.Text.CharSet
import ModuleLinker.Proofs.Text.Cutting
import ModuleLinker.Xml.Documentation

namespace ModuleLinker

/-! # Documentation ids of renamed types

The id of a type in documentation files is its qualified name behind a mark. After a merge the ids of a
module are rewritten by the renames that the plan tells of, each of which concerns the names that begin
with the old one in certain ways. A type whose simple name has no point, and whose name has no bracket,
is concerned by the rename of no other type.
-/

namespace Xml

/-- The id of a type. -/
def typeId (name : String) : String := "T:" ++ name

theorem typeId_injective : Function.Injective typeId := by
  intro name name' h
  exact (String.append_right_inj _).1 h

/-- A rename of a type, by its old and new name, concerns a name. -/
def Concerns (name : String) (namespaces : List String) (r : String × String) : Prop :=
  (renamed? name namespaces r).isSome

/-- What a rename makes of a name that it concerns. -/
theorem eq_append_of_renamed? {name new : String} {namespaces : List String} {r : String × String}
    (h : renamed? name namespaces r = some new) : ∃ tail, name = r.1 ++ tail ∧ new = r.2 ++ tail ∧
      (tail = "" ∨ tail.toList.head? = some '(' ∨
        (tail.toList.head? = some '.' ∧ ¬ inNamespaceBelow name r.1 namespaces)) := by
  obtain ⟨old, target⟩ := r
  unfold renamed? at h
  obtain ⟨tail, htail, h⟩ := Option.bind_eq_some_iff.1 h
  rw [Text.after?_eq_some_iff] at htail
  dsimp only at h
  split at h
  case isFalse => cases h
  case isTrue happlies =>
    refine ⟨tail, htail, (Option.some.inj h).symm, ?_⟩
    simpa [startsWithPoint, or_assoc] using happlies

/-- A rename concerns the old name itself. -/
theorem renamed?_self (old new : String) (namespaces : List String) :
    renamed? old namespaces (old, new) = some new := by
  have htail : Text.after? old old = some "" := Text.after?_eq_some_iff.2 String.append_empty.symm
  unfold renamed?
  dsimp only
  rw [htail]
  simp

/-- The id of a type after renames. -/
theorem renameMemberId_typeId (name : String) (renames : List (String × String))
    (namespaces : List String) : renameMemberId (typeId name) renames namespaces =
      typeId ((renames.findSome? (renamed? name namespaces)).getD name) := by
  have hcut : Text.cutFirst? ':' (typeId name) = some ("T", name) := by
    simp [Text.cutFirst?, typeId, List.span_eq_takeWhile_dropWhile]
  unfold renameMemberId
  rw [hcut]
  dsimp only
  rcases renames.findSome? (renamed? name namespaces) with _ | new
  · rfl
  · rfl

/-- A name lies below an old name if its namespace does. -/
theorem inNamespaceBelow_of_append {old below namespaceName rest : String} {namespaces : List String}
    (hnamespace : namespaceName ∈ namespaces) (hold : namespaceName = old ++ below)
    (hbelow : below = "" ∨ below.toList.head? = some '.') (hrest : rest.toList.head? = some '.') :
    inNamespaceBelow (namespaceName ++ rest) old namespaces := by
  have hafter : Text.after? old namespaceName = some below := Text.after?_eq_some_iff.2 hold
  have hlocal : Text.after? namespaceName (namespaceName ++ rest) = some rest :=
    Text.after?_append
  refine List.any_eq_true.2 ⟨namespaceName, hnamespace, ?_⟩
  rw [hafter, hlocal]
  simpa [startsWithPoint, hrest] using hbelow

theorem qualifiedName_of_not_isEmpty {namespaceName : String} (h : ¬ namespaceName.isEmpty)
    (name : String) : qualifiedName namespaceName name = namespaceName ++ ("." ++ name) := by
  rw [qualifiedName, if_neg h]
  exact String.append_assoc

/-- An old name that ends before a point of a qualified name ends in its namespace, as there is no point
in the simple name. -/
theorem exists_below {namespaceName name old tail : String} (hpoint : '.' ∉ name.toList)
    (hname : qualifiedName namespaceName name = old ++ tail) (hhead : tail.toList.head? = some '.') :
    ∃ below, qualifiedName namespaceName name = namespaceName ++ ("." ++ name) ∧
      namespaceName = old ++ below ∧ (below = "" ∨ below.toList.head? = some '.') := by
  have hmem := List.mem_of_head? hhead
  by_cases hempty : namespaceName.isEmpty
  · refine absurd ?_ hpoint
    rw [qualifiedName, if_pos hempty] at hname
    rw [hname, String.toList_append]
    exact List.mem_append_right _ hmem
  · have hfull := qualifiedName_of_not_isEmpty hempty name
    have hchars : namespaceName.toList ++ '.' :: name.toList = old.toList ++ tail.toList := by
      simpa using congrArg String.toList (hfull.symm.trans hname)
    rcases List.append_eq_append_iff.1 hchars with ⟨below, hold, hrest⟩ | ⟨below, hold, htail⟩
    · rcases below with _ | ⟨c, below⟩
      · refine ⟨"", hfull, ?_, .inl rfl⟩
        rw [List.append_nil] at hold
        rw [String.append_empty, String.toList_inj.1 hold]
      · -- a point behind that of the namespace would be one of the simple name
        refine absurd ?_ hpoint
        rw [(List.cons.inj hrest).2]
        exact List.mem_append_right _ hmem
    · refine ⟨String.ofList below, hfull, ?_, ?_⟩
      · rw [← String.toList_inj, hold, String.toList_append, String.toList_ofList]
      · rw [htail] at hhead
        rcases below with _ | ⟨c, below⟩
        · exact .inl rfl
        · rw [String.toList_ofList]
          exact .inr hhead

/-- A type whose simple name has no point and whose name has no bracket is concerned by no rename of
another type: its namespace is one that the module declares. -/
theorem eq_of_concerns {namespaceName name : String} {namespaces : List String} {r : String × String}
    (hnamespace : namespaceName ∈ namespaces) (hpoint : '.' ∉ name.toList)
    (hbracket : '(' ∉ (qualifiedName namespaceName name).toList)
    (h : Concerns (qualifiedName namespaceName name) namespaces r) :
    r.1 = qualifiedName namespaceName name := by
  obtain ⟨new, hnew⟩ := Option.isSome_iff_exists.1 h
  obtain ⟨tail, hname, -, rfl | hhead | ⟨hhead, hbelow⟩⟩ := eq_append_of_renamed? hnew
  · rw [hname, String.append_empty]
  · refine absurd ?_ hbracket
    rw [hname, String.toList_append]
    exact List.mem_append_right _ (List.mem_of_head? hhead)
  · obtain ⟨below, hfull, hold, hstart⟩ := exists_below hpoint hname hhead
    rw [hfull] at hbelow
    exact absurd (inNamespaceBelow_of_append hnamespace hold hstart (by simp)) hbelow

end Xml

namespace ModuleSet

variable {set : ModuleSet}

/-- The types of an input with different names are known by them. -/
theorem eq_of_name_eq (hnames : ∀ m ∈ set.inputs, (m.types.map TypeDef.qualifiedName).Nodup)
    {d e : Declaration} (hd : d ∈ set.declarations) (he : e ∈ set.declarations)
    (hmodule : e.origin.module = d.origin.module) (hname : e.name = d.name) : e = d := by
  obtain ⟨m, hm, hd⟩ := mem_declarations_iff.1 hd
  obtain ⟨m', hm', he⟩ := mem_declarations_iff.1 he
  rw [hmodule] at hm' he
  obtain rfl := Option.some.inj (hm.symm.trans hm')
  have hmem : e ∈ (declarationsOf m d.origin.module).filter (·.name == d.name) :=
    List.mem_filter.2 ⟨he, beq_iff_eq.2 hname⟩
  rw [filter_declarationsOf (hnames m (List.mem_of_getElem? hm)) hd] at hmem
  exact List.mem_singleton.1 hmem

end ModuleSet

namespace Plan

open ModuleSet Xml

variable {set : ModuleSet} {plan : Plan} {p : Policy} {log : Log}

/-- The documentation ids of the types of a module after the renames that a plan tells of. -/
def newTypeId (plan : Plan) (d : Declaration) : String :=
  renameMemberId (typeId d.name) (plan.renamesOf d.origin.module)
    (d.module.types.map TypeDef.namespaceName)

/-- A rename of its module concerns a type. -/
def Concerns (plan : Plan) (d : Declaration) (r : String × String) : Prop :=
  r ∈ plan.renamesOf d.origin.module ∧ Xml.Concerns d.name (d.module.types.map TypeDef.namespaceName) r

/-- A type has a place of its own, or goes into one that has. -/
theorem Places.exists_goesInto (h : plan.Places set) {d : Declaration} (hd : d ∈ set.declarations) :
    ∃ first ∈ set.declarations, ∃ name, plan.GoesInto d first.origin ∧
      plan.outputName? first = some name := by
  obtain ⟨placement, hplace⟩ := h.exists_placement hd
  cases placement with
  | emit name hide =>
    have hemits : plan.emits d.origin := by
      rw [emits, hplace]
    obtain ⟨name, hname⟩ := exists_outputName? hemits
    exact ⟨d, hd, name, .inl rfl, hname⟩
  | into target =>
    obtain ⟨first, hfirst, rfl, hemits, -⟩ := h.joined d hd target hplace
    obtain ⟨name, hname⟩ := exists_outputName? hemits
    exact ⟨first, hfirst, name, .inr hplace, hname⟩

/-- If the renames that concern a type are those of its own name, its id is rewritten exactly if it has a
place of its own. -/
theorem newTypeId_eq (h : ((build set (.ofSet set) p).run.run log).1 = .ok plan)
    (hnames : ∀ m ∈ set.inputs, (m.types.map TypeDef.qualifiedName).Nodup) {d : Declaration}
    (hd : d ∈ set.declarations) (hown : ∀ r, plan.Concerns d r → r.1 = d.name) :
    plan.newTypeId d = typeId ((plan.outputName? d).getD d.name) := by
  rw [newTypeId, renameMemberId_typeId]
  congr 1
  rcases hfound : (plan.renamesOf d.origin.module).findSome?
    (renamed? d.name (d.module.types.map TypeDef.namespaceName)) with _ | new
  · rcases hname : plan.outputName? d with _ | name
    · rfl
    · -- a new name of the type would be listed, and concern it
      by_contra hne
      have hlisted : (d.name, name) ∈ plan.renamesOf d.origin.module :=
        (mem_renamesOf h).2 ⟨d, hd, rfl, rfl, hname, Ne.symm hne⟩
      have hnone := List.findSome?_eq_none_iff.1 hfound _ hlisted
      rw [renamed?_self] at hnone
      cases hnone
  · obtain ⟨⟨old, target⟩, hlisted, hnew⟩ := List.exists_of_findSome?_eq_some hfound
    obtain rfl : old = d.name := hown _ ⟨hlisted, Option.isSome_iff_exists.2 ⟨_, hnew⟩⟩
    obtain ⟨e, he, hmodule, hname, houtput, -⟩ := (mem_renamesOf h).1 hlisted
    obtain rfl := eq_of_name_eq hnames hd he hmodule hname
    rw [renamed?_self] at hnew
    rw [houtput, ← hnew]

/-- The id of a type that keeps its name is left as it is exactly if no rename concerns the type. -/
theorem newTypeId_eq_self_iff (h : ((build set (.ofSet set) p).run.run log).1 = .ok plan)
    (d : Declaration) : plan.newTypeId d = typeId d.name ↔ ∀ r, ¬ plan.Concerns d r := by
  rw [newTypeId, renameMemberId_typeId, typeId_injective.eq_iff]
  rcases hfound : (plan.renamesOf d.origin.module).findSome?
    (renamed? d.name (d.module.types.map TypeDef.namespaceName)) with _ | new
  · refine iff_of_true rfl fun r hr => ?_
    obtain ⟨new, hnew⟩ := Option.isSome_iff_exists.1 hr.2
    exact nomatch (List.findSome?_eq_none_iff.1 hfound r hr.1).symm.trans hnew
  · obtain ⟨r, hlisted, hnew⟩ := List.exists_of_findSome?_eq_some hfound
    refine iff_of_false ?_ fun hnone => hnone r ⟨hlisted, Option.isSome_iff_exists.2 ⟨_, hnew⟩⟩
    -- what is listed is a new name, and the rest of the name is the same
    intro heq
    obtain ⟨e, -, -, hold, -, hne⟩ := (mem_renamesOf h).1 hlisted
    obtain ⟨tail, hname, hnew, -⟩ := eq_append_of_renamed? hnew
    refine hne ((String.append_left_inj tail).1 ?_)
    rw [← hname, ← hnew]
    exact heq

/-- For every type of an input with different names, where the type goes into a type of the output with a
name of its own: if the type is concerned by no rename but that of its own name, its id becomes that of the
type of the output exactly if this is the one it starts from, or has kept the name. It is so for types whose
simple name has no point and whose name has no bracket. If the type of the output has kept the name, the ids
agree exactly if no rename concerns the type. -/
theorem newTypeId_eq_iff (h : ((build set (.ofSet set) p).run.run log).1 = .ok plan)
    (hnames : ∀ m ∈ set.inputs, (m.types.map TypeDef.qualifiedName).Nodup) :
    ∀ d ∈ set.declarations, ∃ first ∈ set.declarations, ∃ name, plan.GoesInto d first.origin ∧
      plan.outputName? first = some name ∧
      ((∀ r, plan.Concerns d r → r.1 = d.name) →
        (plan.newTypeId d = typeId name ↔ first = d ∨ name = d.name)) ∧
      ('.' ∉ d.type.name.toList → '(' ∉ d.name.toList →
        (plan.newTypeId d = typeId name ↔ first = d ∨ name = d.name)) ∧
      (name = d.name → (plan.newTypeId d = typeId name ↔ ∀ r, ¬ plan.Concerns d r)) := by
  intro d hd
  obtain ⟨first, hfirst, name, hgoes, hname⟩ := (places_of_build h).exists_goesInto hd
  have hown : (∀ r, plan.Concerns d r → r.1 = d.name) →
      (plan.newTypeId d = typeId name ↔ first = d ∨ name = d.name) := by
    intro hown
    rw [newTypeId_eq h hnames hd hown, typeId_injective.eq_iff]
    rcases hgoes with heq | hinto
    · obtain rfl := eq_of_origin_eq hd hfirst heq
      simp [hname]
    · -- a type that becomes part of another one has no name of its own
      have hnone : plan.outputName? d = none := by
        rw [outputName?, hinto]
      have hne : first ≠ d := by
        rintro rfl
        cases hnone.symm.trans hname
      simp [hnone, hne, eq_comm]
  refine ⟨first, hfirst, name, hgoes, hname, hown, fun hpoint hbracket => hown fun r hr => ?_, ?_⟩
  · have hnamespace : d.type.namespaceName ∈ d.module.types.map TypeDef.namespaceName :=
      List.mem_map_of_mem (getElem?_of_mem_declarations hd).2
    exact eq_of_concerns hnamespace hpoint hbracket hr.2
  · rintro rfl
    exact newTypeId_eq_self_iff h d

/-! ## A type that becomes part of a renamed one -/

open Relocation

/-- A module that declares nothing, and two with a public class of the same name. -/
def hiddenTwins : ModuleSet :=
  { primary := bareModule "A" [], others := [bareModule "B" [bareType ⟨0x1⟩],
      bareModule "C" [bareType ⟨0x1⟩]], references := [], attributeSource := none }

/-- A policy that hides the types of all modules but the primary one under new names, and makes one type
of those with the same name. -/
def renamingPolicy : Policy :=
  { unionPolicy with
    options := { unionPolicy.options with internalize := true, renameInternalized := true } }

/-- The plan that this policy leads to. -/
def hiddenTwinsPlan : Plan :=
  { placements := [(⟨1, 0⟩, .emit "T_B" true), (⟨2, 0⟩, .into ⟨1, 0⟩)], resources := []
    attributes := [], renames := [⟨1, "N.T", "N.T_B"⟩], hidden := 1 }

/-- The new name of a class `N.T` of a module `B` is `T_B` if that is not taken. -/
theorem rename_of_letter {names : FreshNames} (hfree : ¬ names.Taken "N.T_B") :
    (names.rename "N" "T" "B").1 = "T_B" := by
  have hletter : Text.isAlphanumeric 'B' := CharSet.hasCode_ofRanges.2 (by decide +kernel)
  have hidentifier : FreshNames.identifierOf "B" = "B" :=
    FreshNames.identifierOf_eq_self (by simp [hletter])
  have hcandidate : FreshNames.candidate "T" "B" 1 = "T_B" := by
    unfold FreshNames.candidate
    rw [hidentifier]
    decide +kernel
  have hqualified : qualifiedName "N" "T_B" = "N.T_B" := by decide
  rw [← hqualified] at hfree
  exact hcandidate ▸ FreshNames.rename_of_free (hcandidate ▸ hfree)

theorem build_hiddenTwins :
    ((build hiddenTwins (.ofSet hiddenTwins) renamingPolicy).run.run []).1 = .ok hiddenTwinsPlan := by
  have hname : ((declaredNames hiddenTwins).rename "N" "T" "B").1 = "T_B" := by
    refine rename_of_letter ?_
    rw [declaredNames, FreshNames.taken_of]
    decide
  let x : Placed := ⟨⟨⟨1, 0⟩, (bareModule "B" [bareType ⟨0x1⟩]).module, bareType ⟨0x1⟩⟩,
    ((declaredNames hiddenTwins).rename "N" "T" "B").1, true⟩
  -- but for the new name the plan is what its definition says
  have hplan : ((build hiddenTwins (.ofSet hiddenTwins) renamingPolicy).run.run []).1 = .ok
      { placements := [(⟨1, 0⟩, .emit x.name true), (⟨2, 0⟩, .into ⟨1, 0⟩)], resources := []
        attributes := [], renames := (renameOf? x).toList, hidden := 1 } := rfl
  rw [hplan]
  dsimp only [x]
  rw [hname]
  decide

/-- The class of the last module becomes part of one that gets a new name, and its id stays what it was. -/
theorem newTypeId_keeps_joined :
    (∀ m ∈ hiddenTwins.inputs, (m.types.map TypeDef.qualifiedName).Nodup) ∧
    ((build hiddenTwins (.ofSet hiddenTwins) renamingPolicy).run.run []).1 = .ok hiddenTwinsPlan ∧
    hiddenTwins.declarations.map (fun d => (d.origin.module, d.name, hiddenTwinsPlan.outputName? d,
      decide (hiddenTwinsPlan.GoesInto d ⟨1, 0⟩), hiddenTwinsPlan.newTypeId d)) =
        [(1, "N.T", some "N.T_B", true, "T:N.T_B"), (2, "N.T", none, true, "T:N.T")] :=
  ⟨by decide, build_hiddenTwins, by decide +kernel⟩

theorem newTypeId_eq_iff_hiddenTwins : ∃ d ∈ hiddenTwins.declarations, d.origin = ⟨2, 0⟩ ∧
    ∃ first ∈ hiddenTwins.declarations, ∃ name, hiddenTwinsPlan.GoesInto d first.origin ∧
      hiddenTwinsPlan.outputName? first = some name ∧
      (hiddenTwinsPlan.newTypeId d = typeId name ↔ first = d ∨ name = d.name) := by
  let d : Declaration := ⟨⟨2, 0⟩, (bareModule "C" [bareType ⟨0x1⟩]).module, bareType ⟨0x1⟩⟩
  have hd : d ∈ hiddenTwins.declarations := List.mem_cons_of_mem _ List.mem_cons_self
  obtain ⟨first, hfirst, name, hgoes, hname, -, hplain, -⟩ :=
    newTypeId_eq_iff build_hiddenTwins (by decide) d hd
  exact ⟨d, hd, rfl, first, hfirst, name, hgoes, hname, hplain (by decide) (by decide)⟩

end Plan

end ModuleLinker
