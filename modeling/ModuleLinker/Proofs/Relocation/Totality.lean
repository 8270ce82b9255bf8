import ModuleLinker.Proofs.Plan.Attributes
import ModuleLinker.Proofs.Plan.Placement
import ModuleLinker.Proofs.Relocation.MemberReferences

namespace ModuleLinker

/-! # Relocations that answer

A relocation of inputs that use nothing but what is there, by a plan that has been made for them, has
nothing to fail with but a table that has too few rows.
-/

namespace Module

variable {m : Module} {t : TypeDef}

theorem names_of_mem_definedTokens (ht : t ∈ m.allTypes) {token : Token} (h : token ∈ t.definedTokens) :
    m.Names token := by
  rw [Names, definedTokens_eq]
  exact .inr (List.mem_append_left _ (List.mem_append_left _ (List.mem_flatMap.2 ⟨t, ht, h⟩)))

end Module

namespace ModuleSet

/-- The definitions of the inputs take no more rows than their tokens. -/
theorem countP_keys_le (set : ModuleSet) (table : UInt8) :
    set.keys.countP (·.token.table == table) ≤ set.rowsOf table := by
  have hkeys : set.keys = set.sourced fun m => m.allTypes.flatMap TypeDef.definedTokens := set.keys_eq
  rw [hkeys]
  refine countP_sourced_le fun m => ?_
  rw [Module.definedTokens_eq, List.append_assoc]
  exact List.sublist_append_left ..

end ModuleSet

namespace Shape

variable {l : Linkage} {plan : Plan} {placed : PlacedShapes} {rs : List Redirect}

theorem Built.countP_slots_le (hset : l.set.WellNumbered)
    (h : Built l plan l.set.declarations placed rs) (table : UInt8) :
    ((withinAll (placed.map Prod.snd)).flatMap slots).countP (·.1 == table) ≤ l.set.rowsOf table := by
  have haccounted := h.accounted hset
  -- each slot is in the table of its token
  have hslots : ((withinAll (placed.map Prod.snd)).flatMap slots).countP (·.1 == table) =
      (keysOf (placed.map Prod.snd)).countP (·.token.table == table) := by
    rw [← map_slots, List.countP_map]
    refine List.countP_congr fun slot hslot => ?_
    rw [mem_slots haccounted hslot]
    rfl
  have hsubperm : (keysOf (placed.map Prod.snd)).Subperm l.set.keys := by
    refine List.subperm_ext_iff.2 fun k _ => ?_
    have hcount := h.grown.count k
    rw [List.count_nil, Nat.zero_add] at hcount
    exact Nat.le_of_add_right_le hcount.le
  rw [hslots]
  exact (hsubperm.countP_le _).trans (l.set.countP_keys_le table)

/-- Only a table with too few rows keeps the shapes of a merge from being numbered. -/
theorem Built.substitution_eq_error (hset : l.set.WellNumbered)
    (h : Built l plan l.set.declarations placed rs) {fault : Fault}
    (hfault : substitution (placed.map Prod.snd) rs = .error fault) :
    ∃ table, fault = .unbound (.tableFull table) ∧ Token.maxRow.toNat < l.set.rowsOf table := by
  have haccounted := h.accounted hset
  rcases Shape.substitution_eq_error hfault with ⟨table, hfull, hmax⟩ |
    ⟨sub, a, before, r, after, sub', hrun, -⟩
  · exact ⟨table, hfull, Nat.lt_of_lt_of_le hmax (h.countP_slots_le hset table)⟩
  · obtain ⟨sub₁, hredirects⟩ := haccounted.redirects_answer hrun
    rw [substitution_of_ok hrun hredirects] at hfault
    cases hfault

end Shape

/-! ## References of whole inputs -/

namespace Linkage.Whole

open Importing Relocation

variable {l : Linkage} {plan : Plan}

end Linkage.Whole

namespace Relocation

open Shape ImportTables Importing

variable {l : Linkage} {set : ModuleSet} {plan : Plan} {policy : Policy}

/-! ## Tokens to be written -/

section

variable {start tables : ImportTables} {attributes : List Attribute}

/-- When all references are bound, every token that may be used in an input is resolved. -/
theorem Bound.resolve_eq (h : Bound l plan start tables attributes) (hset : l.set.WellNumbered)
    {source : Nat} {m : Module} (hm : l.set.inputs[source]? = some m) {t : Token} (ht : m.Names t) :
    tables.substitution.resolve source t = .ok (tables.substitution.counterpart source t) := by
  by_cases hshared : Substitution.isShared t
  · rw [Substitution.resolve_of_isShared hshared, Substitution.counterpart, if_pos hshared]
  · have hknown : ∃ new, tables.substitution.get? ⟨source, t⟩ = some new := by
      have himported := h.imported source m hm
      rcases importable_of_names hset hm h.wired ht with (hfree | hknown | htype) | hmember
      · exact absurd hfree hshared
      · exact hknown
      · obtain ⟨m', hm', hmem⟩ := ModuleSet.mem_sourced.1 htype
        obtain rfl := Option.some.inj (hm.symm.trans hm')
        obtain ⟨row, hrow, rfl⟩ := List.mem_map.1 hmem
        exact himported.typeRefs row hrow
      · obtain ⟨r, hr, rfl⟩ := List.mem_map.1 hmember
        exact himported.memberRefs r hr
    obtain ⟨new, hnew⟩ := hknown
    rw [Substitution.resolve_of_get? hshared hnew, Substitution.counterpart_of_get? hshared hnew]

/-- A member uses no other tokens when some of its attributes are left out. -/
theorem tokens_retained_subset (l : Linkage) (source : Nat) (x : Member) :
    (x.withAttributes (retained l source)).tokens ⊆ x.tokens := by
  have hattributes (tokens : List Token) (attributes : List Attribute) :
      tokens ++ Attribute.tokensOf (retained l source attributes) ⊆
        tokens ++ Attribute.tokensOf attributes := by
    have hretained : retained l source attributes ⊆ attributes := List.filter_subset_self _
    exact List.append_subset.2 ⟨List.subset_append_left _ _,
      List.subset_append_of_subset_right _ (List.map_subset _ hretained)⟩
  cases x with
  | field x => exact hattributes _ _
  | method x => exact hattributes _ _
  | property x => exact hattributes _ _
  | event x => exact List.cons_subset_cons _ (hattributes _ _)

/-- What is drawn from closed inputs is resolved. -/
theorem Bound.resolved (h : Bound l plan start tables attributes) (hset : l.set.WellNumbered)
    (hclosed : ∀ m ∈ l.set.inputs, m.IsClosed) {s : Shape} (hs : Drawn l.set s) :
    Resolved l tables.substitution s := by
  have huses {source : Nat} {t : TypeDef} (ht : l.set.Declares ⟨source, t⟩) {token : Token}
      (htoken : token ∈ t.tokens ∨ token ∈ t.definedTokens) :
      tables.substitution.resolve source token = .ok (tables.substitution.counterpart source token) := by
    obtain ⟨m, hm, hmem⟩ := ht
    refine h.resolve_eq hset hm ?_
    rcases htoken with huse | hdefined
    · exact (hclosed m (List.mem_of_getElem? hm)).types t hmem token huse
    · exact Module.names_of_mem_definedTokens hmem hdefined
  refine ⟨fun x hx t ht => ?_, fun a ha => ?_, fun t ht => ?_, fun i hi => ?_⟩
  · obtain ⟨type, htype, hmember⟩ := hs.declared x hx
    refine huses htype ?_
    rw [TypeDef.tokens_eq, TypeDef.definedTokens_eq]
    rcases List.mem_cons.1 ht with rfl | htoken
    · exact .inr (List.mem_cons_of_mem _ (List.mem_map_of_mem hmember))
    · refine .inl (List.mem_append_right _ (List.mem_flatMap.2 ⟨_, hmember, ?_⟩))
      exact tokens_retained_subset l x.source x.value htoken
  · obtain ⟨type, htype, hmem⟩ := hs.attributes a ha
    refine huses htype (.inl ?_)
    rw [TypeDef.tokens_eq]
    exact List.mem_append_left _ (List.mem_append_right _ (List.mem_map_of_mem hmem))
  · refine huses hs.origin ?_
    rw [TypeDef.tokens_eq, TypeDef.definedTokens_eq]
    rcases List.mem_cons.1 ht with rfl | hbase
    · exact .inr List.mem_cons_self
    · exact .inl (List.mem_append_left _ (List.mem_append_left _ (List.mem_append_left _ hbase)))
  · obtain ⟨type, htype, hmem⟩ := hs.interfaces i hi
    refine huses htype (.inl ?_)
    rw [TypeDef.tokens_eq]
    exact List.mem_append_left _ (List.mem_append_left _ (List.mem_append_right _ hmem))

end

/-! ## Answers -/

end Relocation

end ModuleLinker
