import Mathlib.Data.List.Find
import ModuleLinker.Proofs.Relocation.KeptTypes

namespace ModuleLinker

/-! # Parts of types and references in the output

A relocation of a module by itself leaves of each type the first members with each key, the first interfaces
with each name and the attributes that can stand beside each other. Where the tokens that show in keys and
names are those of types, what is left has the keys and names that it had, so that nothing more would be left
out by a further relocation. The rows of the output refer to what is outside of it: a reference to a member
leaves the types of the output as it left those of the module, so that no further relocation finds a member
for it.
-/

namespace Module

/-- Whether the tokens by whose names the parts of types, the attributes and the members that references mean
are told apart are named. -/
structure Named (m : Module) : Prop where
  members : ∀ t ∈ m.allTypes, ∀ x ∈ t.members, ∀ k ∈ x.keyTokens, k.Named
  interfaces : ∀ t ∈ m.allTypes, ∀ k ∈ t.interfaces, k.Named
  typeAttributes : ∀ t ∈ m.allTypes, ∀ a ∈ t.attributes, a.type.Named
  attributes : ∀ a ∈ m.attributes, a.type.Named
  memberRefs : ∀ r ∈ m.memberRefs, ∀ k ∈ r.signature.tokens, k.Named

instance (m : Module) : Decidable m.Named :=
  decidable_of_iff ((∀ t ∈ m.allTypes, ∀ x ∈ t.members, ∀ k ∈ x.keyTokens, k.Named) ∧
      (∀ t ∈ m.allTypes, ∀ k ∈ t.interfaces, k.Named) ∧ (∀ t ∈ m.allTypes, ∀ a ∈ t.attributes, a.type.Named) ∧
      (∀ a ∈ m.attributes, a.type.Named) ∧ ∀ r ∈ m.memberRefs, ∀ k ∈ r.signature.tokens, k.Named)
    ⟨fun ⟨a, b, c, d, e⟩ => ⟨a, b, c, d, e⟩, fun ⟨a, b, c, d, e⟩ => ⟨a, b, c, d, e⟩⟩

end Module

theorem Member.keyTokens_subset (x : Member) : x.keyTokens ⊆ x.tokens := by
  cases x with
  | field x => exact List.subset_append_left _ _
  | method x => exact List.subset_append_of_subset_left _ (List.subset_append_left _ _)
  | property x =>
    exact List.subset_append_of_subset_left _ (List.subset_append_of_subset_left _ (List.subset_append_left _ _))
  | event x => exact List.cons_subset_cons _ (List.nil_subset _)

namespace Shape

variable {l : Linkage} {sub : Substitution} {source : Nat}

/-! ## Parts of written types -/

theorem members_written (hretained : retained l source = id) (t : TypeDef) :
    (written l sub source t).members =
      (ownMembers (l.names source) id t.members).map (Member.rename (sub.counterpart source)) := by
  rw [written, members_image, parts_own, List.map_map]
  refine List.map_congr_left fun x _ => ?_
  rw [Function.comp_apply, memberImage, hretained, Member.withAttributes_id]

theorem interfaces_own (t : TypeDef) : (own l source t).interfaces =
    (firsts (l.names source).name [] t.interfaces).map (Sourced.mk source) := by
  rw [own_eq]
  rfl

theorem attributes_own (t : TypeDef) : (own l source t).attributes = ownAttributes l source t.attributes := by
  rw [own_eq]
  rfl

theorem interfaces_written (t : TypeDef) : (written l sub source t).interfaces =
    (firsts (l.names source).name [] t.interfaces).map (sub.counterpart source) := by
  rw [written, interfaces_image, interfaces_own, List.map_map]
  rfl

theorem attributes_written (t : TypeDef) : (written l sub source t).attributes =
    (accept (NamedAttribute.standsBeside (NamedAttribute.repeats l.set l.policy))
      (fun a => attributeContent l ⟨source, a⟩) t.attributes).map (Attribute.rename (sub.counterpart source)) := by
  rw [written, attributes_image, attributes_own, ownAttributes_eq, List.map_map]
  rfl

end Shape

namespace Module

/-! ## Usages of attribute types -/

/-- The text of a token is no name of an attribute type. -/
theorem typeNameOrToken_eq_usageType {m : Module} {token : Token} :
    m.typeNameOrToken token = Attribute.usageType ↔ m.typeName? token = some Attribute.usageType := by
  rw [typeNameOrToken]
  rcases m.typeName? token with _ | name
  · have htext : token.text ≠ Attribute.usageType := by
      intro heq
      have hhead := congrArg (fun s => s.toList.head?) heq
      have hzero : "0x".toList.head? = some '0' := by decide
      have hletter : Attribute.usageType.toList.head? = some 'S' := by decide
      rw [Token.text, String.toList_append, List.head?_append, hzero, Option.some_or, hletter] at hhead
      exact absurd hhead (by decide)
    simpa using htext
  · simp

end Module

/-! ## Rows for types -/

/-- Rows lead on in the same way where the same names are those of inputs. -/
theorem TypeRows.congr {set set' : ModuleSet} (hset : set'.inputIndex? = set.inputIndex?)
    {references : List Identity} {rows : List TypeRef} (h : TypeRows set references rows) :
    TypeRows set' references rows := by
  induction h with
  | nil => exact .nil
  | @add references references' rows row _ hleads hnew ih =>
    refine ih.add ?_ hnew
    generalize row.scope = scope at hleads ⊢
    cases hleads with
    | known hindex => exact .known hindex
    | added hindex hapart hforeign => exact .added hindex hapart (hset ▸ hforeign)
    | nested houter => exact .nested houter

namespace Relocation

open Shape ImportTables Importing

namespace Renumbered

variable {m : LoadedModule} {p : Policy} {plan : Plan} {out : Module} {rs : List Redirect}
  {sub₀ sub : Substitution} {a : Allocator} {tables : ImportTables}
  (h : Renumbered m p plan out rs sub₀ sub a tables)

include h

theorem findTypeNamed?_eq (fullName : String) : out.findTypeNamed? fullName =
    (m.module.findTypeNamed? fullName).map (written (.ofSet (.alone m) p) tables.substitution 0) := by
  rw [Module.findTypeNamed?, h.walk_eq, List.find?_map, Option.map_map, Module.findTypeNamed?, Option.map_map]
  rfl

/-! ## Tokens of what is kept -/

section

variable {t : TypeDef} (ht : t ∈ m.module.allTypes)

include ht

theorem resolved_own : Resolved (.ofSet (.alone m) p) tables.substitution (own (.ofSet (.alone m) p) 0 t) := by
  refine h.resolved _ ?_
  rw [map_snd_shapesOf, withinAll_ownAll, TypeDef.withinAll_eq]
  exact List.mem_map_of_mem ht

theorem resolve_member (hp : p.Plain) {x : Member}
    (hx : x ∈ ownMembers ((Linkage.ofSet (.alone m) p).names 0) id t.members) :
    ∀ k ∈ x.tokens, tables.substitution.resolve 0 k = .ok (tables.substitution.counterpart 0 k) := by
  have hparts := (h.resolved_own ht).parts ⟨0, x⟩ (parts_own _ _ t ▸ List.mem_map_of_mem hx)
  dsimp only at hparts
  rw [retained_eq hp, Member.withAttributes_id] at hparts
  exact fun k hk => hparts k (List.mem_cons_of_mem _ hk)

theorem resolve_interface {k : Token}
    (hk : k ∈ firsts ((Linkage.ofSet (.alone m) p).names 0).name [] t.interfaces) :
    tables.substitution.resolve 0 k = .ok (tables.substitution.counterpart 0 k) :=
  (h.resolved_own ht).interfaces ⟨0, k⟩ (interfaces_own t ▸ List.mem_map_of_mem hk)

theorem resolve_attribute {b : Attribute} (hb : b ∈ accept (NamedAttribute.standsBeside
    (NamedAttribute.repeats (.alone m) p)) (fun b => attributeContent (.ofSet (.alone m) p) ⟨0, b⟩) t.attributes) :
    tables.substitution.resolve 0 b.type = .ok (tables.substitution.counterpart 0 b.type) := by
  refine (h.resolved_own ht).attributes ⟨0, b⟩ ?_
  rw [attributes_own, ownAttributes_eq]
  exact List.mem_map_of_mem hb

theorem resolve_base {k : Token} (hk : k ∈ t.base) :
    tables.substitution.resolve 0 k = .ok (tables.substitution.counterpart 0 k) := by
  have horigin := (h.resolved_own ht).origin
  rw [own_eq] at horigin
  exact horigin k (List.mem_cons_of_mem _ (Option.mem_toList.2 hk))

end

/-! ## Attributes that may be repeated -/

/-- The first usage of a type is the same, as whatever stands before it is no usage. -/
theorem find?_usage {t : TypeDef} (ht : t ∈ m.module.allTypes) :
    (written (.ofSet (.alone m) p) tables.substitution 0 t).attributes.find?
        (fun b => out.typeName? b.type == some Attribute.usageType) =
      (t.attributes.find? fun b => m.module.typeName? b.type == some Attribute.usageType).map
        (Attribute.rename (tables.substitution.counterpart 0)) := by
  have hrenamed : ∀ b ∈ accept (NamedAttribute.standsBeside (NamedAttribute.repeats (.alone m) p))
      (fun b => attributeContent (.ofSet (.alone m) p) ⟨0, b⟩) t.attributes,
      (out.typeName? (b.rename (tables.substitution.counterpart 0)).type == some Attribute.usageType) =
        (m.module.typeName? b.type == some Attribute.usageType) :=
    fun b hb => congrArg (· == _) (h.typeName?_eq (h.resolve_attribute ht hb))
  rw [attributes_written, List.find?_map]
  refine congrArg _ ((List.find?_congr hrenamed).trans (find?_accept (fun before b hb hbefore => ?_) _))
  refine NamedAttribute.standsBeside_of_not_mem fun hmem => ?_
  rw [List.map_map] at hmem
  obtain ⟨other, hother, hname⟩ := List.mem_map.1 hmem
  have hsame : m.module.typeNameOrToken other.type = m.module.typeNameOrToken b.type := by
    rw [← h.numbered.typesNumbered.name_ofModule, ← h.numbered.typesNumbered.name_ofModule]
    exact hname
  rw [Module.typeNameOrToken_eq_usageType.2 (beq_iff_eq.1 hb)] at hsame
  exact hbefore other hother (beq_iff_eq.2 (Module.typeNameOrToken_eq_usageType.1 hsame))

theorem attributeUsage?_eq (fullName : String) :
    out.attributeUsage? fullName = m.module.attributeUsage? fullName := by
  rw [Module.attributeUsage?, h.findTypeNamed?_eq, Module.attributeUsage?]
  rcases hfound : m.module.findTypeNamed? fullName with _ | t
  · rfl
  · have ht := Module.mem_allTypes_of_findTypeNamed? hfound
    have husage := h.find?_usage ht
    dsimp only [Option.map_some, Option.bind_eq_bind, Option.bind_some]
    rw [husage, Option.bind_map]
    rfl

theorem repeats_eq (path : Path) :
    NamedAttribute.repeats (.alone ⟨path, out⟩) p = NamedAttribute.repeats (.alone m) p := by
  have hone : (ModuleSet.alone ⟨path, out⟩).all = [out] := rfl
  have hmodule : (ModuleSet.alone m).all = [m.module] := rfl
  funext name
  rw [NamedAttribute.repeats, NamedAttribute.repeats, NamedAttribute.isRepeatable, NamedAttribute.isRepeatable,
    hone, hmodule, List.findSome?_cons, List.findSome?_cons, h.attributeUsage?_eq]

/-! ## Reduced types -/

/-- A member that is kept has the key that it had. -/
theorem key_eq (hp : p.Plain) (hnamed : m.module.Named) {t : TypeDef} (ht : t ∈ m.module.allTypes) {x : Member}
    (hx : x ∈ ownMembers ((Linkage.ofSet (.alone m) p).names 0) id t.members) :
    (x.rename (tables.substitution.counterpart 0)).key (NameTable.ofModule out) =
      x.key (NameTable.ofModule m.module) := by
  refine Member.key_rename fun k hk => ?_
  exact h.name_eq (h.resolve_member ht hp hx k (x.keyTokens_subset hk))
    (hnamed.members t ht x ((firsts_sublist _ _ _).subset hx) k hk)

theorem reduced (hp : p.Plain) (hnamed : m.module.Named) (path : Path) :
    ∀ t ∈ out.allTypes, Reduced (.ofSet (.alone ⟨path, out⟩) p) 0 t := by
  rw [← out.map_walk, h.walk_eq, List.map_map, List.forall_mem_map]
  rintro ⟨t, fullName⟩ hentry
  have ht : t ∈ m.module.allTypes := m.module.map_walk ▸ List.mem_map_of_mem hentry
  dsimp only [Function.comp_apply]
  refine ⟨⟨?_, ?_⟩, ?_⟩
  · have hkeys := List.map_congr_left fun x hx => h.key_eq hp hnamed ht hx
    rw [members_written (retained_eq hp _ 0), List.map_map]
    exact (congrArg List.Nodup hkeys).mpr (nodup_map_firsts _ _ _).1
  · have hnames : ∀ k ∈ firsts ((Linkage.ofSet (.alone m) p).names 0).name [] t.interfaces,
        (NameTable.ofModule out).name (tables.substitution.counterpart 0 k) =
          (NameTable.ofModule m.module).name k := fun k hk =>
      h.name_eq (h.resolve_interface ht hk) (hnamed.interfaces t ht k ((firsts_sublist _ _ _).subset hk))
    rw [interfaces_written, List.map_map]
    exact (congrArg List.Nodup (List.map_congr_left hnames)).mpr (nodup_map_firsts _ _ _).1
  · have hfits := h.repeats_eq path
    rw [attributes_written]
    dsimp only [Linkage.ofSet]
    rw [hfits]
    refine (allFit_accept _ _ t.attributes).map fun b hb => ?_
    have hname := h.name_eq (h.resolve_attribute ht hb)
      (hnamed.typeAttributes t ht b ((accept_sublist _ _ _).subset hb))
    exact Prod.ext hname rfl

/-! ## Searches for members -/

/-- A written type has no member with a key that no member of the type has. -/
theorem lookup_written (hp : p.Plain) (hnamed : m.module.Named) {t : TypeDef} (ht : t ∈ m.module.allTypes)
    {key : MemberKey} (hnone : (t.memberKeys (NameTable.ofModule m.module)).lookup key = none) :
    ((written (.ofSet (.alone m) p) tables.substitution 0 t).memberKeys (NameTable.ofModule out)).lookup key =
      none := by
  rw [TypeDef.lookup_memberKeys, Option.map_eq_none_iff, List.find?_eq_none] at hnone ⊢
  rw [members_written (retained_eq hp _ 0), List.forall_mem_map]
  intro x hx
  rw [h.key_eq hp hnamed ht hx]
  exact hnone x ((firsts_sublist _ _ _).subset hx)

/-- A search that leaves the types of the module leaves those of the output. -/
theorem search_outside (hp : p.Plain) (hnamed : m.module.Named) (path : Path) {key : MemberKey} {steps : Nat}
    {t : TypeDef} (ht : t ∈ m.module.allTypes)
    (houtside : search (.ofSet (.alone m) p) key steps (0, t) = .outside) :
    search (.ofSet (.alone ⟨path, out⟩) p) key steps
      (0, written (.ofSet (.alone m) p) tables.substitution 0 t) = .outside := by
  induction steps generalizing t with
  | zero => cases houtside
  | succ steps ih =>
    rw [search] at houtside ⊢
    rcases hlookup : (t.memberKeys ((Linkage.ofSet (.alone m) p).names 0)).lookup key with _ | found
    case some =>
      rw [hlookup] at houtside
      cases houtside
    have hnone : ((written (.ofSet (.alone m) p) tables.substitution 0 t).memberKeys
        ((Linkage.ofSet (.alone ⟨path, out⟩) p).names 0)).lookup key = none :=
      h.lookup_written hp hnamed ht hlookup
    rw [hlookup] at houtside
    rw [hnone]
    dsimp only at houtside ⊢
    rw [base_written]
    rcases hbase : t.base with _ | base
    case none =>
      rw [hbase] at houtside
      cases houtside
    rw [hbase] at houtside
    dsimp only [Option.map_some] at houtside ⊢
    rw [h.inputType?_eq path (h.resolve_base ht hbase)]
    rcases htype : inputType? (.ofSet (.alone m) p) 0 base with _ | ⟨input, u⟩
    case none => rfl
    -- the base type is one of the module
    rw [htype] at houtside
    obtain ⟨m', hm', hu⟩ := declares_of_inputType? htype
    obtain ⟨rfl, rfl⟩ := ModuleSet.getElem?_alone hm'
    exact ih hu houtside

/-- A row for a member leads out of the output. -/
theorem memberSearch_outside (hp : p.Plain) (hnamed : m.module.Named) (path : Path) {row : MemberRef}
    (hrow : row ∈ out.memberRefs) : memberSearch (.ofSet (.alone ⟨path, out⟩) p) 0 row = .outside := by
  rw [h.memberRefs] at hrow
  obtain ⟨source, m', hm', r, hr, hsearch, hspells⟩ := h.bound.wired.spelled row hrow
  obtain ⟨rfl, rfl⟩ := ModuleSet.getElem?_alone hm'
  obtain ⟨hsignature, htokens⟩ := MemberSig.mapTokens_ok (tables.substitution.follows_resolve 0) hspells.signature
  have hkey : row.key (NameTable.ofModule out) = r.key (NameTable.ofModule m.module) :=
    MemberRef.key_eq hspells.name hsignature fun k hk =>
      h.name_eq (htokens k hk) (hnamed.memberRefs r hr k hk)
  unfold memberSearch at hsearch ⊢
  rw [h.inputType?_eq path hspells.parent]
  rcases htype : inputType? (.ofSet (.alone m) p) 0 r.parent with _ | ⟨input, t⟩
  case none => rfl
  rw [htype] at hsearch
  obtain ⟨m', hm', ht⟩ := declares_of_inputType? htype
  obtain ⟨rfl, rfl⟩ := ModuleSet.getElem?_alone hm'
  exact h.search_outside hp hnamed path ht (hkey ▸ hsearch)

/-- The references of the output are such as an import leaves them. -/
theorem references_out (hp : p.Plain) (hnamed : m.module.Named) (path : Path) : References ⟨path, out⟩ p where
  typeTokens := h.typeTokens
  memberTokens := h.memberTokens
  typeRows := by
    have hrows : TypeRows (.alone m) tables.references tables.typeRefs := h.bound.wired.rows rfl
    rw [← h.references, ← h.typeRefs] at hrows
    exact hrows.congr (h.inputIndex?_eq path)
  distinct := by
    rw [h.memberRefs]
    exact h.bound.wired.distinct
  outside := fun _ hr => h.memberSearch_outside hp hnamed path hr
  uses := fun _ _ _ hsplit => h.memberUses hsplit

end Renumbered

end Relocation

end ModuleLinker
