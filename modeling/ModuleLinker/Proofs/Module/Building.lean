import Mathlib.Data.List.Infix
import ModuleLinker.Proofs.Module.Calls

namespace ModuleLinker

/-! # Modules that are built

What a call adds comes behind what is there, so that what it answers stands for the same row from then on, and
nothing is added twice. The module is what the calls say unless a row is refused; then the fault of the first one
is all that comes of it.
-/

open ModuleBuilder

/-! ## Rows -/

/-- A row that an answer may stand for. -/
inductive Row where
  | reference (identity : Identity)
  | typeRef (r : TypeRef)
  | memberRef (r : MemberRef)
  | type (t : TypeDef)
  | method (x : Method)

/-- The row that an answer stands for in a module. -/
def Module.row? (m : Module) : Answer → Option Row
  | .nothing => none
  | .index i => m.references[i.toNat]?.map .reference
  | .token t =>
    if t.table = Table.typeRef then (m.typeRef? t).map .typeRef
    else if t.table = Table.memberRef then (m.memberRef? t).map .memberRef
    else if t.table = Table.typeDef then (m.findType? t).map .type
    else (m.findMethod? t).map .method

/-- The answer was given for a row: its token is that of the row, or its index is the place of the row among the
referenced modules, as far as 32 bits tell. -/
inductive Module.StandsFor (m : Module) : Answer → Row → Prop where
  | index {place : Nat} {identity : Identity} (h : m.references[place]? = some identity) :
      StandsFor m (.index (.ofNat place)) (.reference identity)
  | token {t : Token} {row : Row} (h : m.row? (.token t) = some row) : StandsFor m (.token t) row

/-- The row is what the call asked a module for. -/
inductive ModuleBuilder.Call.Fits (m : Module) : Call → Row → Prop where
  | reference {identity other : Identity} (h : other.agrees identity) :
      Fits m (.reference identity) (.reference other)
  | typeRef (r : TypeRef) : Fits m (.typeRef r.scope r.namespaceName r.name) (.typeRef r)
  | memberRef (r : MemberRef) : Fits m (.memberRef r.parent r.name r.signature) (.memberRef r)
  | addType {spec : TypeSpec} {t : TypeDef} (h : spec.Declares t) : Fits m (.addType spec) (.type t)
  | methodToken {token : Token} {name : String} {t : TypeDef} {x : Method} (ht : m.findType? token = some t)
      (hx : FirstNamed t.methods name x) : Fits m (.methodToken token name) (.method x)

/-! ## Rows stay where they are -/

namespace Module

variable {m m' m'' : Module}

/-- The rows of the first module come first in the second one. -/
structure Extends (m m' : Module) : Prop where
  references : m.references <+: m'.references
  typeRefs : m.typeRefs <+: m'.typeRefs
  memberRefs : m.memberRefs <+: m'.memberRefs
  types : m.types <+: m'.types

namespace Extends

theorem refl (m : Module) : m.Extends m :=
  ⟨List.prefix_refl _, List.prefix_refl _, List.prefix_refl _, List.prefix_refl _⟩

theorem trans (h : m.Extends m') (h' : m'.Extends m'') : m.Extends m'' :=
  ⟨h.references.trans h'.references, h.typeRefs.trans h'.typeRefs, h.memberRefs.trans h'.memberRefs,
    h.types.trans h'.types⟩

end Extends

end Module

/-! ## Modules without repetitions -/

theorem TypeDef.Tabled.table_mem_definitions {t : TypeDef} (h : t.Tabled) {token : Token}
    (htoken : token ∈ t.definedTokens) : token.table ∈ Table.definitions := by
  rw [definedTokens_eq, List.mem_cons] at htoken
  rcases htoken with rfl | hmember
  · rw [h.token]
    decide
  · obtain ⟨x, hx, rfl⟩ := List.mem_map.1 hmember
    rw [h.members x hx]
    exact Member.table_mem_definitions x

namespace Module

variable {m : Module} {specs : List TypeSpec}

theorem WellNumbered.nodup_methods (h : m.WellNumbered) : (m.methods.map Method.token).Nodup := by
  refine h.nodup_defined.sublist ?_
  rw [methods_eq, List.map_flatMap]
  refine List.Sublist.flatMap_right _ fun t _ => ?_
  refine List.Sublist.cons _ ?_
  rw [List.append_assoc, List.append_assoc]
  exact List.sublist_append_of_sublist_right (List.sublist_append_left _ _)

/-- The module has the types that are described, and nothing twice: its tokens are in the tables of their kinds and
all different, those of a table are those of its first rows in the order in which types and their members are
declared, nested types behind the members of the type around them; no two referenced modules agree, and no two
references to types or members say the same. -/
structure Built (specs : List TypeSpec) (m : Module) : Prop where
  declares : List.Forall₂ TypeSpec.Declares specs m.types
  wellNumbered : m.WellNumbered
  inOrder : ∀ table, Token.InOrder table (m.definedTokens.filter (·.table == table))
  apart : m.references.Pairwise fun other identity => other.agrees identity = false
  distinctTypeRefs : (m.typeRefs.map TypeRef.said).Nodup
  distinctMemberRefs : (m.memberRefs.map MemberRef.said).Nodup

namespace Built

variable {m' : Module}

end Built

end Module

/-! ## Calls one after another -/

namespace Allocator

/-- Tokens that are taken may come before others that are in other tables. -/
theorem HandedOut.rows_between {a a' : Allocator} {front back tokens : List Token} {tables : List UInt8}
    (h : ∀ table, a.HandedOut table ((front ++ back).filter (·.table == table)))
    (hrows : (Allocating.rows tables).run.run a = (.ok tokens, a'))
    (hapart : ∀ t ∈ tokens, ∀ u ∈ back, u.table ≠ t.table) (table : UInt8) :
    a'.HandedOut table ((front ++ tokens ++ back).filter (·.table == table)) := by
  have hadded := (h table).rows hrows
  have hsame : (front ++ tokens ++ back).filter (·.table == table) =
      (front ++ back).filter (·.table == table) ++ tokens.filter (·.table == table) := by
    simp only [List.filter_append]
    by_cases hnone : tokens.filter (·.table == table) = []
    · rw [hnone, List.append_nil, List.append_nil]
    · -- what stands behind has nothing in a table of which a row was taken
      obtain ⟨t, ht⟩ := List.exists_mem_of_ne_nil _ hnone
      obtain ⟨ht, htable⟩ := List.mem_filter.1 ht
      have hback : back.filter (·.table == table) = [] := by
        refine List.filter_eq_nil_iff.2 fun u hu => ?_
        rw [beq_iff_eq] at htable ⊢
        exact htable ▸ hapart t ht u hu
      rw [hback, List.append_nil, List.append_nil]
  exact hsame ▸ hadded

end Allocator

namespace Module

variable {m m' : Module} {a a' : Allocator} {specs : List TypeSpec} {call : Call} {tables : List UInt8}
  {tokens : List Token} {answer : Answer} {row : Row}

/-- What holds of a module and of the allocator that its tokens came from, as long as no row was refused. -/
structure Sound (specs : List TypeSpec) (m : Module) (a : Allocator) : Prop where
  built : m.Built specs
  handedOut : ∀ table, a.HandedOut table (m.definedTokens.filter (·.table == table))

namespace Sound

theorem of_handedOut (handedOut : ∀ table, a.HandedOut table (m.definedTokens.filter (·.table == table)))
    (declares : List.Forall₂ TypeSpec.Declares specs m.types) (tabled : ∀ t ∈ m.allTypes, t.Tabled)
    (typeRefs : ∀ r ∈ m.typeRefs, r.token.table = Table.typeRef)
    (memberRefs : ∀ r ∈ m.memberRefs, r.token.table = Table.memberRef)
    (apart : m.references.Pairwise fun other identity => other.agrees identity = false)
    (distinctTypeRefs : (m.typeRefs.map TypeRef.said).Nodup)
    (distinctMemberRefs : (m.memberRefs.map MemberRef.said).Nodup) : m.Sound specs a :=
  ⟨⟨declares, ⟨Token.nodup_of_inOrder fun table => (handedOut table).inOrder, fun t ht => (tabled t ht).token,
    fun t ht => (tabled t ht).members, typeRefs, memberRefs⟩, fun table => (handedOut table).inOrder, apart,
    distinctTypeRefs, distinctMemberRefs⟩, handedOut⟩

theorem tabled (h : m.Sound specs a) : ∀ t ∈ m.allTypes, t.Tabled :=
  fun t ht => ⟨h.built.wellNumbered.types t ht, h.built.wellNumbered.members t ht⟩

theorem empty (identity : Identity) (kind : ModuleKind) : (ofIdentity identity kind).Sound [] .empty := by
  refine of_handedOut (fun table => ⟨rfl, Nat.zero_le _, rfl⟩) .nil nofun nofun nofun .nil ?_ ?_
  · exact List.nodup_nil
  · exact List.nodup_nil

/-- Where no row is taken, none is handed out. -/
theorem handedOut_nil (h : m.Sound specs a) (hrows : (Allocating.rows tables).run.run a = (.ok [], a'))
    (table : UInt8) : a'.HandedOut table (m.definedTokens.filter (·.table == table)) := by
  have hsame := (h.handedOut table).rows hrows
  rwa [List.filter_nil, List.append_nil] at hsame

theorem addTypeRef (h : m.Sound specs a) {r : TypeRef} (hnew : r.said ∉ m.typeRefs.map TypeRef.said)
    (htable : r.token.table = Table.typeRef)
    (hrows : (Allocating.rows tables).run.run a = (.ok [r.token], a')) :
    { m with typeRefs := m.typeRefs ++ [r] }.Sound specs a' := by
  have hnumbered := h.built.wellNumbered
  refine of_handedOut ?_ h.built.declares h.tabled ?_ hnumbered.memberRefs h.built.apart ?_
    h.built.distinctMemberRefs
  · have hbefore := h.handedOut
    simp only [definedTokens_eq] at hbefore ⊢
    rw [List.map_append, ← List.append_assoc]
    refine Allocator.HandedOut.rows_between hbefore hrows ?_
    rw [List.map_singleton, List.forall_mem_singleton, List.forall_mem_map]
    intro q hq
    rw [hnumbered.memberRefs q hq, htable]
    decide
  · exact List.forall_mem_append.2 ⟨hnumbered.typeRefs, List.forall_mem_singleton.2 htable⟩
  · rw [List.map_append, List.map_singleton, ← List.concat_eq_append]
    exact List.Nodup.concat hnew h.built.distinctTypeRefs

theorem addMemberRef (h : m.Sound specs a) {r : MemberRef} (hnew : r.said ∉ m.memberRefs.map MemberRef.said)
    (htable : r.token.table = Table.memberRef)
    (hrows : (Allocating.rows tables).run.run a = (.ok [r.token], a')) :
    { m with memberRefs := m.memberRefs ++ [r] }.Sound specs a' := by
  have hnumbered := h.built.wellNumbered
  refine of_handedOut ?_ h.built.declares h.tabled hnumbered.typeRefs ?_ h.built.apart h.built.distinctTypeRefs ?_
  · have hbefore := h.handedOut
    simp only [definedTokens_eq] at hbefore ⊢
    rw [List.map_append, ← List.append_assoc, ← List.append_nil (_ ++ List.map _ [r])]
    rw [← List.append_nil (_ ++ _)] at hbefore
    exact Allocator.HandedOut.rows_between hbefore hrows fun _ _ => nofun
  · exact List.forall_mem_append.2 ⟨hnumbered.memberRefs, List.forall_mem_singleton.2 htable⟩
  · rw [List.map_append, List.map_singleton, ← List.concat_eq_append]
    exact List.Nodup.concat hnew h.built.distinctMemberRefs

theorem addType (h : m.Sound specs a) {spec : TypeSpec} {t : TypeDef} (hdeclares : spec.Declares t)
    (htabled : ∀ u ∈ t.within, u.Tabled)
    (hrows : (Allocating.rows tables).run.run a = (.ok (t.within.flatMap TypeDef.definedTokens), a')) :
    { m with types := m.types ++ [t] }.Sound (specs ++ [spec]) a' := by
  have hnumbered := h.built.wellNumbered
  have htypes : { m with types := m.types ++ [t] }.allTypes = m.allTypes ++ t.within := by
    simp [allTypes]
  refine of_handedOut ?_ ?_ ?_ hnumbered.typeRefs hnumbered.memberRefs h.built.apart h.built.distinctTypeRefs
    h.built.distinctMemberRefs
  · have hbefore := h.handedOut
    simp only [definedTokens_eq, htypes, List.flatMap_append, List.append_assoc] at hbefore ⊢
    rw [← List.append_assoc]
    refine Allocator.HandedOut.rows_between hbefore hrows fun token htoken => ?_
    -- references have tables of their own
    obtain ⟨u, hu, htoken⟩ := List.mem_flatMap.1 htoken
    have hdefinition := (htabled u hu).table_mem_definitions htoken
    rw [List.forall_mem_append, List.forall_mem_map, List.forall_mem_map]
    refine ⟨fun r hr heq => ?_, fun r hr heq => ?_⟩
    · rw [← heq, hnumbered.typeRefs r hr] at hdefinition
      exact absurd hdefinition (by decide)
    · rw [← heq, hnumbered.memberRefs r hr] at hdefinition
      exact absurd hdefinition (by decide)
  · exact List.rel_append h.built.declares (.cons hdeclares .nil)
  · rw [htypes]
    exact List.forall_mem_append.2 ⟨h.tabled, htabled⟩

end Sound

end Module

namespace ModuleBuilder

variable {b : ModuleBuilder} {specs : List TypeSpec} {call : Call} {calls : List Call}

/-- Where no row was refused the module is built with all its rows. -/
theorem exists_build (h : b.fault = none) : ∃ m, b.build = .ok m ∧ b.module.SameRows m := by
  unfold build
  rw [h]
  exact ⟨_, rfl, rfl, rfl, rfl, rfl⟩

/-- Nested types are numbered before the types behind them, and the same reference is added once. -/
example :
    let types := TypeSpec.addNested (.ofName "N" "Outer") (.ofName "N" "Inner")
    let b := after "Library" .dll [.addType types, .typeRef (.reference 0) "M" "T", .addType (.ofName "N" "Other")]
    (b.step (.typeRef (.reference 0) "M" "T")).1 = .token ⟨0x01000001⟩ ∧
      b.module.definedTokens = [⟨0x02000001⟩, ⟨0x02000002⟩, ⟨0x02000003⟩, ⟨0x01000001⟩] :=
  ⟨rfl, by decide⟩

end ModuleBuilder

end ModuleLinker
