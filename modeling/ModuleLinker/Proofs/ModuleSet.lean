import Mathlib.Data.List.Flatten
import Mathlib.Data.List.Nodup
import ModuleLinker.Proofs.Member
import ModuleLinker.Proofs.ReferenceChain
import ModuleLinker.Proofs.Relocation.Substitution
import ModuleLinker.Relocation.Shape

namespace ModuleLinker

/-! # Definitions of the inputs

The types that a module declares are found by their tokens, and no two of its definitions and references
have the same one where it is well numbered. So in inputs that are well numbered no token with the number of
its module stands for two of their types and members.
-/

/-- What a reference to a type says beside its token. -/
def TypeRef.said (r : TypeRef) : Scope × String × String := (r.scope, r.namespaceName, r.name)

/-- What a reference to a member says beside its token. -/
def MemberRef.said (r : MemberRef) : Token × String × MemberSig := (r.parent, r.name, r.signature)

namespace Module

/-! ## Tokens of a module -/

/-- No two definitions or references of a module have the same token, and none of them has a token
that means the same in all modules. -/
structure Identified (m : Module) : Prop where
  nodup : m.definedTokens.Nodup
  unshared : ∀ t ∈ m.definedTokens, ¬ Substitution.isShared t

instance (m : Module) : Decidable m.Identified :=
  decidable_of_iff (m.definedTokens.Nodup ∧ ∀ t ∈ m.definedTokens, ¬ Substitution.isShared t)
    ⟨fun ⟨a, b⟩ => ⟨a, b⟩, fun ⟨a, b⟩ => ⟨a, b⟩⟩

variable {m : Module} {t : TypeDef}

theorem WellNumbered.identified (h : m.WellNumbered) : m.Identified := by
  refine ⟨h.nodup, fun t ht hshared => ?_⟩
  have htable := Substitution.table_of_isShared hshared
  rw [definedTokens_eq, List.mem_append, List.mem_append, List.mem_flatMap, List.mem_map,
    List.mem_map] at ht
  rcases ht with (⟨u, hu, ht⟩ | ⟨r, hr, rfl⟩) | ⟨r, hr, rfl⟩
  · rw [TypeDef.definedTokens_eq, List.mem_cons, List.mem_map] at ht
    rcases ht with rfl | ⟨x, hx, rfl⟩
    · exact absurd (h.types u hu ▸ htable) (by decide)
    · have hmember := x.table_mem_definitions
      rw [← h.members u hu x hx] at hmember
      exact Substitution.not_isShared hmember hshared
  · exact absurd (h.typeRefs r hr ▸ htable) (by decide)
  · exact absurd (h.memberRefs r hr ▸ htable) (by decide)

namespace Identified

theorem nodup_defined (h : m.Identified) :
    (m.allTypes.flatMap TypeDef.definedTokens ++ m.typeRefs.map TypeRef.token).Nodup := by
  have hnodup := h.nodup
  rw [definedTokens_eq] at hnodup
  exact hnodup.of_append_left

theorem nodup_typeRefs (h : m.Identified) : (m.typeRefs.map TypeRef.token).Nodup :=
  h.nodup_defined.of_append_right

theorem nodup_memberRefs (h : m.Identified) : (m.memberRefs.map MemberRef.token).Nodup := by
  have hnodup := h.nodup
  rw [definedTokens_eq] at hnodup
  exact hnodup.of_append_right

theorem unshared_typeRef (h : m.Identified) {r : TypeRef} (hr : r ∈ m.typeRefs) :
    ¬ Substitution.isShared r.token := by
  refine h.unshared _ ?_
  rw [definedTokens_eq]
  exact List.mem_append_left _ (List.mem_append_right _ (List.mem_map_of_mem hr))

theorem unshared_memberRef (h : m.Identified) {r : MemberRef} (hr : r ∈ m.memberRefs) :
    ¬ Substitution.isShared r.token := by
  refine h.unshared _ ?_
  rw [definedTokens_eq]
  exact List.mem_append_right _ (List.mem_map_of_mem hr)

/-- No reference has the token of a definition. -/
theorem typeRef_ne (h : m.Identified) {r : TypeRef} (hr : r ∈ m.typeRefs) :
    r.token ∉ m.allTypes.flatMap TypeDef.definedTokens :=
  fun hmem => List.disjoint_of_nodup_append h.nodup_defined hmem (List.mem_map_of_mem hr)

theorem memberRef_ne (h : m.Identified) {r : MemberRef} (hr : r ∈ m.memberRefs) :
    r.token ∉ m.allTypes.flatMap TypeDef.definedTokens ++ m.typeRefs.map TypeRef.token := by
  have hnodup := h.nodup
  rw [definedTokens_eq] at hnodup
  exact fun hmem => List.disjoint_of_nodup_append hnodup hmem (List.mem_map_of_mem hr)

end Identified

namespace WellNumbered

/-- No definition of the module has the token of another one. -/
theorem nodup_defined (h : m.WellNumbered) : (m.allTypes.flatMap TypeDef.definedTokens).Nodup :=
  h.identified.nodup_defined.of_append_left

theorem nodup_types (h : m.WellNumbered) : (m.allTypes.map TypeDef.token).Nodup := by
  refine h.nodup_defined.sublist ?_
  rw [List.map_eq_flatMap]
  refine List.Sublist.flatMap_right _ fun t _ => ?_
  rw [TypeDef.definedTokens_eq]
  exact List.singleton_sublist.2 List.mem_cons_self

end WellNumbered

/-! ## Finding types -/

theorem mem_allTypes_of_findType? {token : Token} (h : m.findType? token = some t) :
    t ∈ m.allTypes ∧ t.token = token := by
  obtain ⟨entry, hentry, rfl⟩ := Option.map_eq_some_iff.1 h
  rw [← map_walk]
  exact ⟨List.mem_map_of_mem (List.mem_of_find?_eq_some hentry), by simpa using List.find?_some hentry⟩

theorem mem_allTypes_of_findTypeNamed? {fullName : String} (h : m.findTypeNamed? fullName = some t) :
    t ∈ m.allTypes := by
  obtain ⟨entry, hentry, rfl⟩ := Option.map_eq_some_iff.1 h
  rw [← map_walk]
  exact List.mem_map_of_mem (List.mem_of_find?_eq_some hentry)

theorem findType?_of_mem (h : m.WellNumbered) (ht : t ∈ m.allTypes) :
    m.findType? t.token = some t := by
  have hnodup := h.nodup_types
  rw [← map_walk] at hnodup ht
  obtain ⟨entry, hentry, rfl⟩ := List.mem_map.1 ht
  rw [List.map_map] at hnodup
  exact congrArg (Option.map Prod.fst) (find?_key_of_mem hnodup hentry)

end Module

namespace ModuleSet

/-- Whether an input, whose number comes with it, declares a type, nested or not. -/
def Declares (set : ModuleSet) (t : Sourced TypeDef) : Prop :=
  ∃ m, set.inputs[t.source]? = some m ∧ t.value ∈ m.allTypes

/-- Whether some type of an input has a member. -/
def DeclaresMember (set : ModuleSet) (x : Sourced Member) : Prop :=
  ∃ t, set.Declares ⟨x.source, t⟩ ∧ x.value ∈ t.members

instance (set : ModuleSet) : Decidable set.NamesEnd :=
  inferInstanceAs (Decidable (∀ m ∈ set.all, m.NamesEnd))

/-! ## Modules by their numbers -/

section

variable {set : ModuleSet} {source : Nat} {m : Module} {t : Sourced TypeDef}

theorem isInput_of_getElem? (h : set.inputs[source]? = some m) : set.isInput source :=
  decide_eq_true (List.getElem?_eq_some_iff.1 h).1

theorem exists_of_isInput (h : set.isInput source) : ∃ m, set.inputs[source]? = some m :=
  ⟨_, List.getElem?_eq_getElem (of_decide_eq_true h)⟩

theorem source?_of_getElem? (h : set.inputs[source]? = some m) : set.source? source = some m := by
  rw [source?, h, Option.some_or]

/-- Behind the last input there is only the module that attributes are taken from. -/
theorem getElem?_of_source? (h : set.source? source = some m) (hinput : set.isInput source) :
    set.inputs[source]? = some m := by
  obtain ⟨m', hm'⟩ := exists_of_isInput hinput
  rw [← h, source?_of_getElem? hm', hm']

/-- The input with a name is one of the inputs. -/
theorem isInput_of_inputIndex? {name : String} {input : Nat} (h : set.inputIndex? name = some input) :
    set.isInput input :=
  decide_eq_true (List.findIdx?_eq_some_iff_findIdx_eq.1 h).1

theorem Declares.isInput (h : set.Declares t) : set.isInput t.source := by
  obtain ⟨m, hm, -⟩ := h
  exact isInput_of_getElem? hm

end

/-- Whether all inputs are well numbered. -/
def WellNumbered (set : ModuleSet) : Prop := ∀ m ∈ set.inputs, m.WellNumbered

instance (set : ModuleSet) : Decidable set.WellNumbered :=
  inferInstanceAs (Decidable (∀ m ∈ set.inputs, m.WellNumbered))

/-- In each of the inputs, tokens tell definitions and references apart. -/
def Identified (set : ModuleSet) : Prop := ∀ m ∈ set.inputs, m.Identified

instance (set : ModuleSet) : Decidable set.Identified :=
  inferInstanceAs (Decidable (∀ m ∈ set.inputs, m.Identified))

end ModuleSet

namespace Origin

/-- Whether a place is before another one, in the order of modules and of the types of a module. -/
def Before (a b : Origin) : Prop := a.module < b.module ∨ (a.module = b.module ∧ a.index < b.index)

instance (a b : Origin) : Decidable (a.Before b) := inferInstanceAs (Decidable (_ ∨ _))

theorem Before.ne {a b : Origin} (h : a.Before b) : a ≠ b := by
  rintro rfl
  unfold Before at h
  omega

theorem Before.asymm {a b : Origin} (h : a.Before b) : ¬ b.Before a := by
  unfold Before at h ⊢
  omega

end Origin

/-- The tokens of a type of a module, of its members and of what is nested in it. -/
def TypeDef.keysFrom (source : Nat) (t : TypeDef) : List SourceToken :=
  t.within.flatMap fun u => u.definedTokens.map (SourceToken.mk source)

theorem TypeDef.keysFrom_eq (source : Nat) (t : TypeDef) :
    t.keysFrom source = ⟨source, t.token⟩ :: (t.members.map (fun x => ⟨source, x.token⟩) ++
      t.nested.flatMap (TypeDef.keysFrom source)) := by
  rw [keysFrom, within_eq, List.flatMap_cons, definedTokens_eq, List.map_cons, List.map_map,
    List.cons_append, List.flatMap_assoc]
  rfl

namespace ModuleSet

variable {set : ModuleSet}

theorem WellNumbered.identified (hset : set.WellNumbered) : set.Identified :=
  fun m hm => (hset m hm).identified

theorem WellNumbered.module (hset : set.WellNumbered) {source : Nat} {t : TypeDef}
    (ht : set.Declares ⟨source, t⟩) : ∃ m : Module, m.WellNumbered ∧ t ∈ m.allTypes := by
  rcases ht with ⟨m, hm, hmem⟩
  exact ⟨m, hset m (List.mem_of_getElem? hm), hmem⟩

/-- The tokens of a type's members lie in their tables. -/
theorem WellNumbered.table_eq (hset : set.WellNumbered) {source : Nat} {x : Member}
    (hx : set.DeclaresMember ⟨source, x⟩) : x.token.table = x.table := by
  rcases hx with ⟨t, ht, hmem⟩
  rcases hset.module ht with ⟨m, hm, htypes⟩
  exact hm.members t htypes x hmem

theorem WellNumbered.table_typeDef (hset : set.WellNumbered) {source : Nat} {t : TypeDef}
    (ht : set.Declares ⟨source, t⟩) : t.token.table = Table.typeDef := by
  rcases hset.module ht with ⟨m, hm, htypes⟩
  exact hm.types t htypes

end ModuleSet

namespace Module

theorem flatMap_keysFrom (m : Module) (source : Nat) :
    m.types.flatMap (TypeDef.keysFrom source) =
      (m.allTypes.flatMap TypeDef.definedTokens).map (SourceToken.mk source) := by
  rw [allTypes, List.flatMap_assoc, List.map_flatMap]
  refine List.flatMap_congr fun t _ => ?_
  rw [TypeDef.keysFrom, List.map_flatMap]

end Module

namespace ModuleSet

variable {set : ModuleSet}

/-- No two members of a type have the same token. -/
theorem WellNumbered.nodup_members (hset : set.WellNumbered) {source : Nat} {t : TypeDef}
    (ht : set.Declares ⟨source, t⟩) : (t.members.map Member.token).Nodup := by
  rcases hset.module ht with ⟨m, hm, htypes⟩
  have htype := (List.nodup_flatMap.1 hm.nodup_defined).1 t htypes
  rw [TypeDef.definedTokens_eq] at htype
  exact (List.nodup_cons.1 htype).2

/-- The token of a member, with the number of its module, stands for no other member. -/
theorem WellNumbered.member_eq (hset : set.WellNumbered) {source : Nat} {x y : Member}
    (hx : set.DeclaresMember ⟨source, x⟩) (hy : set.DeclaresMember ⟨source, y⟩)
    (h : x.token = y.token) : x = y := by
  obtain ⟨t, ⟨m, hm, ht⟩, hxt⟩ := hx
  obtain ⟨u, ⟨m', hm', hu⟩, hyu⟩ := hy
  obtain rfl : m = m' := Option.some.inj (hm.symm.trans hm')
  have hwell := hset m (List.mem_of_getElem? hm)
  have hnodup : ((m.allTypes.flatMap TypeDef.members).map Member.token).Nodup := by
    rw [List.map_flatMap]
    refine hwell.nodup_defined.sublist (List.Sublist.flatMap_right _ fun v _ => ?_)
    rw [TypeDef.definedTokens_eq]
    exact List.sublist_cons_self ..
  exact List.inj_on_of_nodup_map hnodup (List.mem_flatMap.2 ⟨t, ht, hxt⟩)
    (List.mem_flatMap.2 ⟨u, hu, hyu⟩) h

/-! ## Declarations -/

/-- A declaration tells of the input that its place is in, and of a type of this input. -/
theorem getElem?_of_mem_declarations {d : Declaration} (hd : d ∈ set.declarations) :
    set.inputs[d.origin.module]? = some d.module ∧ d.type ∈ d.module.types := by
  rcases List.mem_flatMap.1 hd with ⟨⟨m, i⟩, hm, hd⟩
  rcases List.mem_map.1 hd with ⟨⟨type, j⟩, htype, rfl⟩
  exact ⟨List.mk_mem_zipIdx_iff_getElem?.1 hm, List.fst_mem_of_mem_zipIdx htype⟩

/-- What is in a declared top-level type is declared by its input. -/
theorem declares_of_mem_declarations {d : Declaration} (hd : d ∈ set.declarations) {t : TypeDef}
    (ht : t ∈ d.type.within) : set.Declares ⟨d.origin.module, t⟩ := by
  rcases getElem?_of_mem_declarations hd with ⟨hm, htype⟩
  exact ⟨d.module, hm, List.mem_flatMap.2 ⟨d.type, htype, ht⟩⟩

/-- What an input declares is in one of its top-level types. -/
theorem exists_declaration {t : Sourced TypeDef} (ht : set.Declares t) :
    ∃ d ∈ set.declarations, d.origin.module = t.source ∧ t.value ∈ d.type.within := by
  obtain ⟨m, hm, hmem⟩ := ht
  obtain ⟨top, htop, hwithin⟩ := List.mem_flatMap.1 hmem
  obtain ⟨index, hindex⟩ := List.mem_iff_getElem?.1 htop
  refine ⟨⟨⟨t.source, index⟩, m, top⟩, ?_, rfl, hwithin⟩
  refine List.mem_flatMap.2 ⟨(m, t.source), List.mk_mem_zipIdx_iff_getElem?.2 hm, ?_⟩
  exact List.mem_map.2 ⟨(top, index), List.mk_mem_zipIdx_iff_getElem?.2 hindex, rfl⟩

theorem pairwise_zipIdx (xs : List α) : xs.zipIdx.Pairwise fun a b => a.2 < b.2 := by
  have hlt : (xs.zipIdx.map Prod.snd).Pairwise (· < ·) := by
    rw [List.zipIdx_map_snd]
    exact List.pairwise_lt_range'
  exact List.pairwise_map.1 hlt

/-- Declarations stand in the order of modules and, within a module, of its types. -/
theorem pairwise_before (set : ModuleSet) :
    set.declarations.Pairwise fun d e => d.origin.Before e.origin := by
  rw [declarations, List.pairwise_flatMap]
  constructor
  · rintro ⟨m, i⟩ -
    dsimp only
    rw [declarationsOf]
    refine List.pairwise_map.2 ((pairwise_zipIdx m.types).imp ?_)
    intro a b hlt
    exact .inr ⟨rfl, hlt⟩
  · refine (pairwise_zipIdx set.inputs).imp ?_
    -- places in two modules are in the order of the modules
    rintro ⟨m, i⟩ ⟨m', i'⟩ hlt d hd e he
    obtain ⟨_, _, rfl⟩ := List.mem_map.1 hd
    obtain ⟨_, _, rfl⟩ := List.mem_map.1 he
    exact .inl hlt

/-- No two declarations have the same place. -/
theorem nodup_origins (set : ModuleSet) : (set.declarations.map Declaration.origin).Nodup :=
  List.pairwise_map.2 (set.pairwise_before.imp fun h => h.ne)

/-- The tokens of all definitions of the inputs. -/
def keys (set : ModuleSet) : List SourceToken :=
  set.declarations.flatMap fun d => d.type.keysFrom d.origin.module

theorem keys_eq (set : ModuleSet) :
    set.keys = set.inputs.zipIdx.flatMap fun (m, i) =>
      (m.allTypes.flatMap TypeDef.definedTokens).map (SourceToken.mk i) := by
  rw [keys, declarations, List.flatMap_assoc]
  refine List.flatMap_congr ?_
  rintro ⟨m, i⟩ -
  dsimp only
  -- the declarations of a module are its types with their places
  rw [← m.flatMap_keysFrom i, declarationsOf, List.flatMap_map]
  have htypes : (m.types.zipIdx.map Prod.fst).flatMap (TypeDef.keysFrom i) =
      m.types.flatMap (TypeDef.keysFrom i) := by
    rw [List.zipIdx_map_fst]
  rw [← htypes, List.flatMap_map]

/-- Where no two definitions of a module have the same token, no two definitions of the inputs have the
same token with the number of its module. -/
theorem nodup_keys_of
    (h : ∀ m ∈ set.inputs, (m.allTypes.flatMap TypeDef.definedTokens).Nodup) : set.keys.Nodup := by
  rw [keys_eq]
  rw [List.nodup_flatMap]
  constructor
  · rintro ⟨m, i⟩ hm
    exact (h m (List.fst_mem_of_mem_zipIdx hm)).map fun a b h => congrArg SourceToken.token h
  · refine (pairwise_zipIdx set.inputs).imp ?_
    -- tokens of two modules differ in the number of the module
    rintro ⟨m, i⟩ ⟨m', i'⟩ hlt k hk hk'
    rcases List.mem_map.1 hk with ⟨_, _, rfl⟩
    rcases List.mem_map.1 hk' with ⟨_, _, heq⟩
    exact Nat.ne_of_lt hlt (congrArg SourceToken.source heq).symm

theorem Identified.nodup_keys (hset : set.Identified) : set.keys.Nodup :=
  nodup_keys_of fun m hm => (hset m hm).nodup_defined.of_append_left

theorem WellNumbered.nodup_keys (hset : set.WellNumbered) : set.keys.Nodup :=
  hset.identified.nodup_keys

/-- The keys of the inputs are the tokens of their definitions. -/
theorem mem_keys {k : SourceToken} : k ∈ set.keys ↔ ∃ m, set.inputs[k.source]? = some m ∧
    k.token ∈ m.allTypes.flatMap TypeDef.definedTokens := by
  rw [keys_eq, List.mem_flatMap]
  constructor
  · rintro ⟨⟨m, i⟩, hm, hk⟩
    obtain ⟨t, ht, rfl⟩ := List.mem_map.1 hk
    exact ⟨m, List.mk_mem_zipIdx_iff_getElem?.1 hm, ht⟩
  · rintro ⟨m, hm, hk⟩
    exact ⟨(m, k.source), List.mk_mem_zipIdx_iff_getElem?.2 hm, List.mem_map.2 ⟨k.token, hk, rfl⟩⟩

theorem Identified.unshared (hset : set.Identified) {k : SourceToken} (hk : k ∈ set.keys) :
    ¬ Substitution.isShared k.token := by
  obtain ⟨m, hm, hmem⟩ := mem_keys.1 hk
  refine (hset m (List.mem_of_getElem? hm)).unshared _ ?_
  rw [Module.definedTokens_eq]
  exact List.mem_append_left _ (List.mem_append_left _ hmem)

theorem mem_keys_of_declaresMember {x : Sourced Member} (hx : set.DeclaresMember x) :
    ⟨x.source, x.value.token⟩ ∈ set.keys := by
  obtain ⟨t, ⟨m, hm, hmem⟩, hx⟩ := hx
  refine mem_keys.2 ⟨m, hm, List.mem_flatMap.2 ⟨t, hmem, ?_⟩⟩
  rw [TypeDef.definedTokens_eq]
  exact List.mem_cons_of_mem _ (List.mem_map_of_mem hx)

end ModuleSet

end ModuleLinker
