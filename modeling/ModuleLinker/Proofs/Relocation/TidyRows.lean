import ModuleLinker.Proofs.Computation
import ModuleLinker.Proofs.Relocation.Importing
import ModuleLinker.Proofs.Relocation.Rewriting
import ModuleLinker.Relocation.Import

namespace ModuleLinker

/-! # Rows of the output

How rows for types and members get into the output, and in which order those for types stand there.
-/

/-! ## Rows that are found or added

A row of the output is found if it is there, and added behind the others if it is not. Here is what each
of the two leaves behind.
-/

namespace Importing

variable {tables tables' : ImportTables}

theorem run_get_bind {f : ImportTables → Importing α} (tables : ImportTables) :
    (get >>= f : Importing α).run.run tables = (f tables).run.run tables := rfl

/-! ## Referenced modules -/

theorem reference_found {identity : Identity} {index : Nat}
    (h : tables.references.findIdx? (·.agrees identity) = some index) :
    (reference identity).run.run tables = (.ok (UInt32.ofNat index), tables) := by
  unfold reference
  rw [run_get_bind]
  dsimp only
  rw [h]
  rfl

theorem reference_added {identity : Identity}
    (h : tables.references.findIdx? (·.agrees identity) = none) :
    (reference identity).run.run tables = (.ok (UInt32.ofNat tables.references.length),
      { tables with references := tables.references ++ [identity] }) := by
  unfold reference
  rw [run_get_bind]
  dsimp only
  rw [h]
  rfl

/-! ## References to types -/

/-- The row of a type, if it is there. -/
def typeRow? (tables : ImportTables) (scope : Scope) (namespaceName name : String) : Option TypeRef :=
  tables.typeRefs.find? fun row =>
    row.scope == scope && row.namespaceName == namespaceName && row.name == name

variable {scope : Scope} {namespaceName name : String}

theorem typeRefRow_found {row : TypeRef} (h : typeRow? tables scope namespaceName name = some row) :
    (typeRefRow scope namespaceName name).run.run tables = (.ok row.token, tables) := by
  unfold typeRow? at h
  unfold typeRefRow
  rw [run_get_bind]
  dsimp only
  rw [h]
  rfl

theorem fresh_eq_ok {table : UInt8} {token : Token} {a : Allocator}
    (h : tables.allocator.next table = (.ok token, a)) :
    (fresh table).run.run tables = (.ok token, { tables with allocator := a }) := by
  unfold fresh
  rw [run_get_bind, h]
  rfl

theorem typeRefRow_added {token : Token} {a : Allocator}
    (h : typeRow? tables scope namespaceName name = none)
    (hnext : tables.allocator.next Table.typeRef = (.ok token, a)) :
    (typeRefRow scope namespaceName name).run.run tables = (.ok token, { tables with
      allocator := a, typeRefs := tables.typeRefs ++ [⟨token, scope, namespaceName, name⟩] }) := by
  unfold typeRow? at h
  unfold typeRefRow
  rw [run_get_bind]
  dsimp only
  rw [h, run_bind_of_ok (fresh_eq_ok hnext)]
  rfl

/-- Where a row for a type is answered, it was found or added. -/
theorem typeRefRow_eq_ok {token : Token}
    (h : (typeRefRow scope namespaceName name).run.run tables = (.ok token, tables')) :
    (∃ row, typeRow? tables scope namespaceName name = some row ∧ token = row.token ∧ tables' = tables) ∨
      typeRow? tables scope namespaceName name = none ∧ ∃ a,
        tables.allocator.next Table.typeRef = (.ok token, a) ∧ tables' = { tables with
          allocator := a, typeRefs := tables.typeRefs ++ [⟨token, scope, namespaceName, name⟩] } := by
  rcases hfound : typeRow? tables scope namespaceName name with _ | row
  · right
    rcases hnext : tables.allocator.next Table.typeRef with ⟨fault | new, a⟩
    · unfold typeRefRow fresh at h
      unfold typeRow? at hfound
      rw [run_get_bind] at h
      dsimp only at h
      rw [hfound] at h
      obtain ⟨_, _, hfresh, -⟩ := run_bind_eq_ok h
      rw [run_get_bind, hnext] at hfresh
      exact nomatch hfresh
    · rw [typeRefRow_added hfound hnext] at h
      obtain ⟨htoken, rfl⟩ := Prod.mk.inj h
      obtain rfl := Except.ok.inj htoken
      exact ⟨rfl, a, rfl, rfl⟩
  · left
    rw [typeRefRow_found hfound] at h
    obtain ⟨htoken, rfl⟩ := Prod.mk.inj h
    exact ⟨row, rfl, (Except.ok.inj htoken).symm, rfl⟩

/-! ## References to members -/

/-- The row of a member, if it is there. -/
def memberRow? (tables : ImportTables) (parent : Token) (name : String) (signature : MemberSig) :
    Option MemberRef :=
  tables.memberRefs.find? fun row =>
    row.parent == parent && row.name == name && row.signature == signature

variable {parent : Token} {signature : MemberSig}

theorem memberRefRow_found {row : MemberRef} (h : memberRow? tables parent name signature = some row) :
    (memberRefRow parent name signature).run.run tables = (.ok row.token, tables) := by
  unfold memberRow? at h
  unfold memberRefRow
  rw [run_get_bind]
  dsimp only
  rw [h]
  rfl

theorem memberRefRow_added {token : Token} {a : Allocator}
    (h : memberRow? tables parent name signature = none)
    (hnext : tables.allocator.next Table.memberRef = (.ok token, a)) :
    (memberRefRow parent name signature).run.run tables = (.ok token, { tables with
      allocator := a, memberRefs := tables.memberRefs ++ [⟨token, parent, name, signature⟩] }) := by
  unfold memberRow? at h
  unfold memberRefRow
  rw [run_get_bind]
  dsimp only
  rw [h, run_bind_of_ok (fresh_eq_ok hnext)]
  rfl

/-- Where a row for a member is answered, it was found or added. -/
theorem memberRefRow_eq_ok {token : Token}
    (h : (memberRefRow parent name signature).run.run tables = (.ok token, tables')) :
    (∃ row, memberRow? tables parent name signature = some row ∧ token = row.token ∧ tables' = tables) ∨
      memberRow? tables parent name signature = none ∧ ∃ a,
        tables.allocator.next Table.memberRef = (.ok token, a) ∧ tables' = { tables with
          allocator := a, memberRefs := tables.memberRefs ++ [⟨token, parent, name, signature⟩] } := by
  rcases hfound : memberRow? tables parent name signature with _ | row
  · right
    rcases hnext : tables.allocator.next Table.memberRef with ⟨fault | new, a⟩
    · unfold memberRefRow fresh at h
      unfold memberRow? at hfound
      rw [run_get_bind] at h
      dsimp only at h
      rw [hfound] at h
      obtain ⟨_, _, hfresh, -⟩ := run_bind_eq_ok h
      rw [run_get_bind, hnext] at hfresh
      exact nomatch hfresh
    · rw [memberRefRow_added hfound hnext] at h
      obtain ⟨htoken, rfl⟩ := Prod.mk.inj h
      obtain rfl := Except.ok.inj htoken
      exact ⟨rfl, a, rfl, rfl⟩
  · left
    rw [memberRefRow_found hfound] at h
    obtain ⟨htoken, rfl⟩ := Prod.mk.inj h
    exact ⟨row, rfl, (Except.ok.inj htoken).symm, rfl⟩

end Importing

/-! ## Rows in order

Rows for types come one behind the other, also those for the module that attributes are taken from. Each
has the next token and says what none before it says; it leads to a referenced module, which agrees with no
other one and is no input, or to an earlier row. That the row around it is an earlier one, and no type of the
output, rests on what the references of the inputs have become.
-/

namespace Module

variable {m : Module} {token outer : Token} {row : TypeRef}

/-! ## Where references lead -/

/-- More steps do not change where a reference leads. -/
theorem targetWithin_succ {steps : Nat} {identity : Identity} (h : m.targetWithin steps row = some identity) :
    m.targetWithin (steps + 1) row = some identity := by
  induction steps generalizing row with
  | zero => cases h
  | succ steps ih =>
    rw [targetWithin] at h ⊢
    rcases hscope : row.scope with index | outer | _
    · rwa [hscope] at h
    · rw [hscope] at h
      obtain ⟨outerRow, hfind, htarget⟩ := Option.bind_eq_some_iff.1 h
      exact Option.bind_eq_some_iff.2 ⟨outerRow, hfind, ih htarget⟩
    · rw [hscope] at h
      cases h

/-- The first step from a reference; there are steps left after it where there is a reference at all. -/
theorem typeRefTarget?_of_row (h : m.typeRef? token = some row) :
    ∃ steps, m.typeRefs.length = steps + 1 ∧ m.typeRefTarget? token = m.targetWithin (steps + 1) row := by
  have hpos := List.length_pos_of_mem (List.mem_of_find?_eq_some h)
  refine ⟨m.typeRefs.length - 1, by omega, ?_⟩
  rw [typeRefTarget?, h, Option.bind_some, Nat.sub_add_cancel hpos]

theorem typeRefTarget?_of_reference (h : m.typeRef? token = some row) {index : UInt32}
    (hscope : row.scope = .reference index) : m.typeRefTarget? token = m.references[index.toNat]? := by
  obtain ⟨steps, -, htarget⟩ := typeRefTarget?_of_row h
  rw [htarget, targetWithin, hscope]

theorem typeRefTarget?_of_here (h : m.typeRef? token = some row) (hscope : row.scope = .here) :
    m.typeRefTarget? token = none := by
  obtain ⟨steps, -, htarget⟩ := typeRefTarget?_of_row h
  rw [htarget, targetWithin, hscope]

/-- A reference to a nested type leads where the reference around it leads. -/
theorem typeRefTarget?_of_enclosing (h : m.typeRef? token = some row) (hscope : row.scope = .enclosing outer)
    {identity : Identity} (hidentity : m.typeRefTarget? token = some identity) :
    m.typeRefTarget? outer = some identity := by
  obtain ⟨steps, hlength, htarget⟩ := typeRefTarget?_of_row h
  rw [htarget, targetWithin, hscope] at hidentity
  obtain ⟨outerRow, hfind, houter⟩ := Option.bind_eq_some_iff.1 hidentity
  rw [typeRefTarget?, hfind, Option.bind_some, hlength]
  exact targetWithin_succ houter

end Module

namespace ModuleSet

/-- A token is that of a reference to a type which is none of the inputs'. -/
def LeadsOut (set : ModuleSet) (k : SourceToken) : Prop :=
  ∃ m identity, set.source? k.source = some m ∧ m.typeRefTarget? k.token = some identity ∧
    set.inputIndex? identity.name = none

/-- If the module that attributes are taken from goes by the name of an input, its references to types
have no tokens of types, as which they would be looked up in the input. -/
def SourceTabled (set : ModuleSet) : Prop :=
  ∀ source ∈ set.attributeSource, (set.inputIndex? source.module.name).isSome →
    ∀ r ∈ source.module.typeRefs, r.token.table ≠ Table.typeDef

instance (set : ModuleSet) : Decidable set.SourceTabled :=
  inferInstanceAs (Decidable (∀ source ∈ set.attributeSource,
    (set.inputIndex? source.module.name).isSome → ∀ r ∈ source.module.typeRefs, r.token.table ≠ Table.typeDef))

variable {set : ModuleSet} {k : SourceToken} {m : Module}

theorem LeadsOut.target (h : set.LeadsOut k) (hm : set.source? k.source = some m) :
    ∃ identity, m.typeRefTarget? k.token = some identity ∧ set.inputIndex? identity.name = none := by
  obtain ⟨m', identity, hm', htarget, hforeign⟩ := h
  obtain rfl := Option.some.inj (hm.symm.trans hm')
  exact ⟨identity, htarget, hforeign⟩

/-- The token is that of a row. -/
theorem LeadsOut.exists_row (h : set.LeadsOut k) (hm : set.source? k.source = some m) :
    ∃ row ∈ m.typeRefs, row.token = k.token := by
  obtain ⟨identity, htarget, -⟩ := h.target hm
  obtain ⟨row, hrow, -⟩ := Option.bind_eq_some_iff.1 htarget
  exact ⟨row, List.mem_of_find?_eq_some hrow, by simpa using List.find?_some hrow⟩

/-- In inputs, no definition and no reference to a member leads out. -/
theorem not_leadsOut_of_mem_keys (hset : set.Identified) (hk : k ∈ set.keys) : ¬ set.LeadsOut k := by
  intro hout
  obtain ⟨m, hm, hmem⟩ := mem_keys.1 hk
  obtain ⟨row, hrow, htoken⟩ := hout.exists_row (source?_of_getElem? hm)
  exact (hset m (List.mem_of_getElem? hm)).typeRef_ne hrow (htoken ▸ hmem)

theorem not_leadsOut_memberRef (hset : set.Identified) (hm : set.inputs[k.source]? = some m)
    {r : MemberRef} (hr : m.memberRef? k.token = some r) : ¬ set.LeadsOut k := by
  intro hout
  obtain ⟨row, hrow, htoken⟩ := hout.exists_row (source?_of_getElem? hm)
  have hsame : r.token = k.token := by simpa using List.find?_some hr
  refine (hset m (List.mem_of_getElem? hm)).memberRef_ne (List.mem_of_find?_eq_some hr) ?_
  exact List.mem_append_right _ (hsame ▸ htoken ▸ List.mem_map_of_mem hrow)

end ModuleSet

namespace ImportTables

open ModuleSet

/-! ## Tidy tables -/

/-- What a reference that leads out stands for is a row. -/
def Rooted (set : ModuleSet) (k : SourceToken) (tables : ImportTables) (new : Token) : Prop :=
  set.SourceTabled → set.LeadsOut k → new ∈ tables.typeRefs.map TypeRef.token

/-- What importing keeps, whatever attributes are taken from: rows for types come in the order of their
tokens and no two of them say the same; referenced modules are no inputs, no two of them agree, and each is
that of a row; rows lead to them or to earlier rows. -/
structure Tidy (set : ModuleSet) (tables : ImportTables) : Prop where
  rows : tables.allocator.HandedOut Table.typeRef (tables.typeRefs.map TypeRef.token)
  count : tables.references.length ≤ tables.typeRefs.length
  apart : tables.references.Pairwise fun other identity => other.agrees identity = false
  foreign : ∀ identity ∈ tables.references, set.inputIndex? identity.name = none
  used : ∀ i < tables.references.length, ∃ row ∈ tables.typeRefs, ∃ index,
    row.scope = .reference index ∧ index.toNat = i
  distinct : (tables.typeRefs.map TypeRef.said).Nodup
  outside : ∀ row ∈ tables.typeRefs, row.scope ≠ .here
  bounded : ∀ row ∈ tables.typeRefs, ∀ index, row.scope = .reference index →
    index.toNat < tables.references.length
  nested : set.SourceTabled → ∀ before row after, tables.typeRefs = before ++ row :: after →
    ∀ outer, row.scope = .enclosing outer → outer ∈ before.map TypeRef.token
  rooted : ∀ k new, tables.substitution.get? k = some new → Rooted set k tables new

/-- Where the scope of a further row for a type may lead, with the references after it. Unlike for
`LeadsOn`, the row around a nested one need not be there in all cases. -/
inductive LeadsFrom (set : ModuleSet) (tables : ImportTables) : List Identity → Scope → Prop
  | known {index : UInt32} (hindex : index.toNat < tables.references.length) :
    LeadsFrom set tables tables.references (.reference index)
  | added {index : UInt32} {identity : Identity} (hindex : index.toNat = tables.references.length)
      (hnew : ∀ other ∈ tables.references, other.agrees identity = false)
      (hforeign : set.inputIndex? identity.name = none) :
    LeadsFrom set tables (tables.references ++ [identity]) (.reference index)
  | nested {outer : Token} (houter : set.SourceTabled → outer ∈ tables.typeRefs.map TypeRef.token) :
    LeadsFrom set tables tables.references (.enclosing outer)

namespace LeadsFrom

variable {set : ModuleSet} {tables : ImportTables} {references : List Identity} {scope : Scope}

/-- A row adds one referenced module at most, and then it is the first row of it. -/
theorem references_eq (h : LeadsFrom set tables references scope) : references = tables.references ∨
    ∃ identity index, references = tables.references ++ [identity] ∧ scope = .reference index ∧
      index.toNat = tables.references.length ∧
      (∀ other ∈ tables.references, other.agrees identity = false) ∧
      set.inputIndex? identity.name = none := by
  cases h with
  | known => exact .inl rfl
  | added hindex hnew hforeign => exact .inr ⟨_, _, rfl, rfl, hindex, hnew, hforeign⟩
  | nested => exact .inl rfl

theorem ne_here (h : LeadsFrom set tables references scope) : scope ≠ .here := by
  cases h <;> exact nofun

theorem index_lt (h : LeadsFrom set tables references scope) {index : UInt32}
    (hscope : scope = .reference index) : index.toNat < references.length := by
  cases h with
  | known hindex =>
    cases hscope
    exact hindex
  | added hindex =>
    cases hscope
    rw [hindex, List.length_append, List.length_singleton]
    exact Nat.lt_succ_self _
  | nested => exact nomatch hscope

theorem mem_of_enclosing (h : LeadsFrom set tables references scope) (hset : set.SourceTabled)
    {outer : Token} (hscope : scope = .enclosing outer) : outer ∈ tables.typeRefs.map TypeRef.token := by
  cases h with
  | known | added => exact nomatch hscope
  | nested houter =>
    cases hscope
    exact houter hset

end LeadsFrom

namespace Tidy

variable {set : ModuleSet} {tables : ImportTables}

/-- Tables without rows, where what has a counterpart does not lead out. -/
theorem initial {sub : Substitution} {a : Allocator} (hrows : a.HandedOut Table.typeRef [])
    (hsub : ∀ k new, sub.get? k = some new → ¬ set.LeadsOut k) : Tidy set ⟨sub, a, [], [], []⟩ where
  rows := hrows
  count := Nat.le_refl _
  apart := .nil
  foreign := nofun
  used := nofun
  distinct := .nil
  outside := nofun
  bounded := nofun
  nested := fun _ _ _ _ hsplit => absurd hsplit (by simp)
  rooted := fun k new hget _ hout => absurd hout (hsub k new hget)

/-! ## Steps -/

theorem keep (h : tables.Tidy set) {k : SourceToken} {new : Token} (hnew : Rooted set k tables new) :
    (tables.keep k new).Tidy set := by
  refine { h with rooted := fun k' new' hget => ?_ }
  rw [ImportTables.keep, Substitution.get?_insert] at hget
  split at hget
  case isTrue heq =>
    cases hget
    exact heq ▸ hnew
  case isFalse => exact h.rooted k' new' hget

theorem addMemberRef (h : tables.Tidy set) {a : Allocator} (row : MemberRef)
    (hnext : tables.allocator.next Table.memberRef = (.ok row.token, a)) :
    (tables.addMemberRef a row).Tidy set :=
  { h with rows := h.rows.next_other (by decide) hnext }

theorem addTypeRef (h : tables.Tidy set) {references : List Identity} (row : TypeRef)
    (hleads : LeadsFrom set tables references row.scope) {a : Allocator}
    (hnext : tables.allocator.next Table.typeRef = (.ok row.token, a))
    (hnew : ∀ r ∈ tables.typeRefs, r.said ≠ row.said) : (tables.addTypeRef references a row).Tidy set := by
  constructor
  case rows =>
    rw [ImportTables.addTypeRef, List.map_append, List.map_singleton]
    exact h.rows.next hnext
  case count =>
    rw [ImportTables.addTypeRef, List.length_append, List.length_singleton]
    rcases hleads.references_eq with rfl | ⟨identity, index, rfl, -⟩
    · exact Nat.le_succ_of_le h.count
    · rw [List.length_append, List.length_singleton]
      exact Nat.succ_le_succ h.count
  case apart =>
    rcases hleads.references_eq with rfl | ⟨identity, index, rfl, -, -, hapart, -⟩
    · exact h.apart
    · refine List.pairwise_append.2 ⟨h.apart, List.pairwise_singleton _ _, fun other hother _ hlast => ?_⟩
      exact List.mem_singleton.1 hlast ▸ hapart other hother
  case foreign =>
    rcases hleads.references_eq with rfl | ⟨identity, index, rfl, -, -, -, hforeign⟩
    · exact h.foreign
    · exact List.forall_mem_append.2 ⟨h.foreign, List.forall_mem_singleton.2 hforeign⟩
  case used =>
    have hold : ∀ i < tables.references.length, ∃ r ∈ tables.typeRefs ++ [row], ∃ index,
        r.scope = .reference index ∧ index.toNat = i := by
      intro i hi
      obtain ⟨r, hr, hindex⟩ := h.used i hi
      exact ⟨r, List.mem_append_left _ hr, hindex⟩
    rcases hleads.references_eq with rfl | ⟨identity, index, rfl, hscope, hindex, -⟩
    · exact hold
    · intro i hi
      rw [ImportTables.addTypeRef, List.length_append, List.length_singleton, Nat.lt_succ_iff_lt_or_eq] at hi
      rcases hi with hlt | rfl
      · exact hold i hlt
      · -- the new row is the one of the new module
        exact ⟨row, List.mem_append_right _ List.mem_cons_self, index, hscope, hindex⟩
  case distinct =>
    rw [ImportTables.addTypeRef, List.map_append, List.map_singleton]
    refine List.nodup_append.2 ⟨h.distinct, List.nodup_singleton _, fun _ hsaid _ hlast => ?_⟩
    obtain ⟨r, hr, rfl⟩ := List.mem_map.1 hsaid
    exact List.mem_singleton.1 hlast ▸ hnew r hr
  case outside => exact List.forall_mem_append.2 ⟨h.outside, List.forall_mem_singleton.2 hleads.ne_here⟩
  case bounded =>
    refine List.forall_mem_append.2 ⟨fun r hr index hscope => ?_,
      List.forall_mem_singleton.2 fun index => hleads.index_lt⟩
    have hbound := h.bounded r hr index hscope
    rcases hleads.references_eq with rfl | ⟨identity, _, rfl, -⟩
    · exact hbound
    · rw [ImportTables.addTypeRef, List.length_append]
      exact Nat.lt_add_right _ hbound
  case nested =>
    intro hset
    exact forall_split_concat (h.nested hset) fun outer => hleads.mem_of_enclosing hset
  case rooted =>
    intro k new hget hset hout
    rw [ImportTables.addTypeRef, List.map_append]
    exact List.mem_append_left _ (h.rooted k new hget hset hout)

end Tidy

end ImportTables

end ModuleLinker
