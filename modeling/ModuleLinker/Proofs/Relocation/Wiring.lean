import ModuleLinker.Proofs.Computation
import ModuleLinker.Proofs.Relocation.Binding

namespace ModuleLinker

/-! # Rows for references

The steps that add rows to the tables keep them wired. They fail only where the inputs leave something
unresolved or have more tokens in a table than it has rows: each row of the output is that of at least
one reference of an input.
-/

namespace ModuleSet

/-! ## Tokens of all inputs -/

/-- Some tokens of every input, with the numbers of the inputs. -/
def sourced (set : ModuleSet) (tokensOf : Module → List Token) : List SourceToken :=
  set.inputs.zipIdx.flatMap fun (m, i) => (tokensOf m).map (SourceToken.mk i)

/-- The number of tokens that the inputs have in a table. -/
def rowsOf (set : ModuleSet) (table : UInt8) : Nat :=
  (set.inputs.flatMap Module.definedTokens).countP (·.table == table)

variable {set : ModuleSet} {tokensOf : Module → List Token} {table : UInt8}

theorem mem_sourced {k : SourceToken} : k ∈ set.sourced tokensOf ↔
    ∃ m, set.inputs[k.source]? = some m ∧ k.token ∈ tokensOf m := by
  rw [sourced, List.mem_flatMap]
  constructor
  · rintro ⟨⟨m, i⟩, hm, hk⟩
    obtain ⟨t, ht, rfl⟩ := List.mem_map.1 hk
    exact ⟨m, List.mk_mem_zipIdx_iff_getElem?.1 hm, ht⟩
  · rintro ⟨m, hm, hk⟩
    exact ⟨(m, k.source), List.mk_mem_zipIdx_iff_getElem?.2 hm, List.mem_map.2 ⟨k.token, hk, rfl⟩⟩

theorem map_token_sourced (set : ModuleSet) (tokensOf : Module → List Token) :
    (set.sourced tokensOf).map SourceToken.token = set.inputs.flatMap tokensOf := by
  have hinputs : (set.inputs.zipIdx.map Prod.fst).flatMap tokensOf = set.inputs.flatMap tokensOf := by
    rw [List.zipIdx_map_fst]
  rw [← hinputs, List.flatMap_map, sourced, List.map_flatMap]
  refine List.flatMap_congr ?_
  rintro ⟨m, i⟩ -
  rw [List.map_map]
  exact List.map_id _

/-- The inputs have no fewer tokens in a table than those of a kind. -/
theorem countP_sourced_le (h : ∀ m, (tokensOf m).Sublist m.definedTokens) :
    (set.sourced tokensOf).countP (fun k => k.token.table == table) ≤ set.rowsOf table := by
  have hmap : (set.sourced tokensOf).countP (fun k => k.token.table == table) =
      (set.inputs.flatMap tokensOf).countP (·.table == table) := by
    rw [← map_token_sourced, List.countP_map]
    rfl
  rw [hmap, rowsOf]
  exact (List.Sublist.flatMap_right _ fun m _ => h m).countP_le

/-- The tokens of references to types. -/
def typeRefKeys (set : ModuleSet) : List SourceToken :=
  set.sourced fun m => m.typeRefs.map TypeRef.token

/-- The tokens of references to members. -/
def memberRefKeys (set : ModuleSet) : List SourceToken :=
  set.sourced fun m => m.memberRefs.map MemberRef.token

theorem WellNumbered.length_typeRefKeys_le (hset : set.WellNumbered) :
    set.typeRefKeys.length ≤ set.rowsOf Table.typeRef := by
  refine Nat.le_trans (List.countP_eq_length.2 fun k hk => ?_).ge (countP_sourced_le fun m => ?_)
  · obtain ⟨m, hm, hmem⟩ := mem_sourced.1 hk
    obtain ⟨r, hr, heq⟩ := List.mem_map.1 hmem
    rw [← heq]
    exact beq_iff_eq.2 ((hset m (List.mem_of_getElem? hm)).typeRefs r hr)
  · rw [Module.definedTokens_eq, List.append_assoc]
    exact (List.sublist_append_left ..).trans (List.sublist_append_right ..)

theorem WellNumbered.length_memberRefKeys_le (hset : set.WellNumbered) :
    set.memberRefKeys.length ≤ set.rowsOf Table.memberRef := by
  refine Nat.le_trans (List.countP_eq_length.2 fun k hk => ?_).ge (countP_sourced_le fun m => ?_)
  · obtain ⟨m, hm, hmem⟩ := mem_sourced.1 hk
    obtain ⟨r, hr, heq⟩ := List.mem_map.1 hmem
    rw [← heq]
    exact beq_iff_eq.2 ((hset m (List.mem_of_getElem? hm)).memberRefs r hr)
  · rw [Module.definedTokens_eq]
    exact List.sublist_append_right ..

end ModuleSet

namespace ImportTables

/-! ## Counting rows -/

/-- The tables with a counterpart set. -/
def keep (tables : ImportTables) (k : SourceToken) (new : Token) : ImportTables :=
  { tables with substitution := tables.substitution.insert k new }

/-- How many of the tokens have a counterpart. -/
def knownOf (tables : ImportTables) (keys : List SourceToken) : Nat :=
  keys.countP fun k => (tables.substitution.get? k).isSome

variable {tables tables' : ImportTables} {keys : List SourceToken} {k : SourceToken} {l : Linkage}

theorem isSome_keep (k : SourceToken) (new : Token) {k' : SourceToken}
    (h : (tables.substitution.get? k').isSome) :
    ((tables.keep k new).substitution.get? k').isSome := by
  rw [keep, Substitution.get?_insert]
  split
  · rfl
  · exact h

theorem knownOf_le_keep (keys : List SourceToken) (k : SourceToken) (new : Token) :
    tables.knownOf keys ≤ (tables.keep k new).knownOf keys :=
  List.countP_mono_left fun _ _ h => isSome_keep k new h

/-- Setting the first counterpart of a token makes one more of them. -/
theorem knownOf_keep (hk : k ∈ keys) (hnone : tables.substitution.get? k = none) (new : Token) :
    tables.knownOf keys + 1 ≤ (tables.keep k new).knownOf keys := by
  have hperm := List.perm_cons_erase hk
  have hold : tables.knownOf keys = tables.knownOf (keys.erase k) := by
    rw [knownOf, hperm.countP_eq, List.countP_cons_of_neg (by simp [hnone])]
    rfl
  have hnew : (tables.keep k new).knownOf keys = (tables.keep k new).knownOf (keys.erase k) + 1 := by
    rw [knownOf, hperm.countP_eq, List.countP_cons_of_pos]
    · rfl
    · rw [keep, Substitution.get?_insert_self]
      rfl
  rw [hold, hnew]
  exact Nat.succ_le_succ (knownOf_le_keep _ k new)

theorem knownOf_lt_length (hk : k ∈ keys) (hnone : tables.substitution.get? k = none) :
    tables.knownOf keys < keys.length := by
  refine Nat.lt_of_le_of_ne List.countP_le_length fun heq => ?_
  have hsome := List.countP_eq_length.1 heq k hk
  rw [hnone] at hsome
  exact nomatch hsome

/-- There are no more rows than references that have counterparts, save for rows that are not yet those
of any. Rows for the module that attributes are taken from are not counted. -/
def Counted (l : Linkage) (types members : Nat) (tables : ImportTables) : Prop :=
  l.set.attributeSource = none →
    tables.typeRefs.length ≤ tables.knownOf l.set.typeRefKeys + types ∧
      tables.memberRefs.length ≤ tables.knownOf l.set.memberRefKeys + members

namespace Counted

theorem keepType (h : tables.Counted l 1 0) (hk : k ∈ l.set.typeRefKeys)
    (hnone : tables.substitution.get? k = none) (new : Token) : (tables.keep k new).Counted l 0 0 := by
  intro hsource
  obtain ⟨htypes, hmembers⟩ := h hsource
  exact ⟨Nat.le_trans htypes (knownOf_keep hk hnone new),
    Nat.le_trans hmembers (knownOf_le_keep _ k new)⟩

theorem keepMember (h : tables.Counted l 0 1) (hk : k ∈ l.set.memberRefKeys)
    (hnone : tables.substitution.get? k = none) (new : Token) : (tables.keep k new).Counted l 0 0 := by
  intro hsource
  obtain ⟨htypes, hmembers⟩ := h hsource
  exact ⟨Nat.le_trans htypes (knownOf_le_keep _ k new),
    Nat.le_trans hmembers (knownOf_keep hk hnone new)⟩

end Counted

/-! ## Setting counterparts -/

/-- A counterpart may be set where an input's reference has none yet and it binds the reference. -/
theorem Wired.keep (h : tables.Wired l) (k : SourceToken) (new : Token)
    (hk : ∀ m, l.set.inputs[k.source]? = some m → tables.substitution.get? k = none ∧
      ¬ Substitution.isShared k.token ∧
      (∀ row ∈ m.typeRefs, row.token = k.token → BindsType l tables k.source m row new) ∧
      ∀ r ∈ m.memberRefs, r.token = k.token → BindsMember l tables k.source r new) :
    (tables.keep k new).Wired l ∧ Step l.set (· = k) tables (tables.keep k new) := by
  have hstep : Step l.set (· = k) tables (tables.keep k new) := by
    refine ⟨List.prefix_refl _, List.Subset.refl _, List.Subset.refl _, fun k' new' hinput hget => ?_,
      fun k' hne => Substitution.get?_insert_of_ne _ hne _⟩
    obtain ⟨m, hm⟩ := ModuleSet.exists_of_isInput hinput
    have hne : k' ≠ k := by
      rintro rfl
      exact nomatch hget.symm.trans (hk m hm).1
    exact (Substitution.get?_insert_of_ne _ hne _).trans hget
  refine ⟨⟨h.typeRows, h.memberRows, h.references, h.scopes, h.rows, h.distinct, ?_, ?_, ?_, ?_, ?_, ?_⟩,
    hstep⟩
  · intro k' new' hinput hget
    rw [ImportTables.keep, Substitution.get?_insert] at hget
    split at hget
    case isTrue heq =>
      obtain ⟨m, hm⟩ := ModuleSet.exists_of_isInput (heq ▸ hinput)
      exact heq ▸ (hk m hm).2.1
    case isFalse => exact h.unshared k' new' hinput hget
  · intro t ht
    obtain ⟨new', hnew'⟩ := h.declared t ht
    obtain ⟨m, hm, -⟩ := ht
    exact ⟨new', hstep.known _ _ (ModuleSet.isInput_of_getElem? hm) hnew'⟩
  · intro hset k' hk'
    obtain ⟨new', hnew'⟩ := h.defined hset k' hk'
    obtain ⟨m, hm, -⟩ := ModuleSet.mem_keys.1 hk'
    exact ⟨new', hstep.known _ _ (ModuleSet.isInput_of_getElem? hm) hnew'⟩
  · intro source m hm row hrow new' hget
    rw [ImportTables.keep, Substitution.get?_insert] at hget
    split at hget
    case isTrue heq =>
      subst heq
      cases hget
      exact hstep.bindsType ((hk m hm).2.2.1 row hrow rfl)
    case isFalse => exact hstep.bindsType (h.typeRefs source m hm row hrow new' hget)
  · intro source m hm r hr new' hget
    have hinput := ModuleSet.isInput_of_getElem? hm
    rw [ImportTables.keep, Substitution.get?_insert] at hget
    split at hget
    case isTrue heq =>
      subst heq
      cases hget
      exact hstep.bindsMember hinput ((hk m hm).2.2.2 r hr rfl)
    case isFalse => exact hstep.bindsMember hinput (h.memberRefs source m hm r hr new' hget)
  · intro row hrow
    obtain ⟨source, m, hm, r, hr, hsearch, hspells⟩ := h.spelled row hrow
    exact ⟨source, m, hm, r, hr, hsearch, hstep.spells (ModuleSet.isInput_of_getElem? hm) hspells⟩

/-! ## Adding rows -/

/-- The tables with a row for a type; the referenced module may be a new one. -/
def addTypeRef (tables : ImportTables) (references : List Identity) (a : Allocator) (row : TypeRef) :
    ImportTables :=
  { tables with references, allocator := a, typeRefs := tables.typeRefs ++ [row] }

/-- The tables with a row for a member. -/
def addMemberRef (tables : ImportTables) (a : Allocator) (row : MemberRef) : ImportTables :=
  { tables with allocator := a, memberRefs := tables.memberRefs ++ [row] }

theorem Wired.addTypeRef (h : tables.Wired l) {references : List Identity}
    (hstart : tables.references <+: references)
    (hlength : references.length ≤ tables.references.length + 1) {a : Allocator} (row : TypeRef)
    (hnext : tables.allocator.next Table.typeRef = (.ok row.token, a))
    (hscope : ∀ index, row.scope = .reference index → index.toNat < references.length)
    (hleads : l.set.attributeSource = none →
      LeadsOn l.set tables.references tables.typeRefs references row.scope)
    (hnew : ∀ r ∈ tables.typeRefs, r.said ≠ row.said) :
    (tables.addTypeRef references a row).Wired l ∧
      Step l.set (fun _ => False) tables (tables.addTypeRef references a row) := by
  have hstep : Step l.set (fun _ => False) tables (tables.addTypeRef references a row) :=
    ⟨hstart, List.subset_append_left _ _, List.Subset.refl _, fun _ _ _ hget => hget, fun _ _ => rfl⟩
  refine ⟨⟨?_, ?_, ?_, ?_, fun halone => .add (h.rows halone) (hleads halone) hnew, h.distinct, h.unshared,
    h.declared, h.defined, ?_, ?_, ?_⟩, hstep⟩
  · rw [ImportTables.addTypeRef, List.map_append, List.map_singleton]
    exact h.typeRows.next hnext
  · exact h.memberRows.next_other (by decide) hnext
  · rw [ImportTables.addTypeRef, List.length_append, List.length_singleton]
    exact Nat.le_trans hlength (Nat.succ_le_succ h.references)
  · refine List.forall_mem_append.2 ⟨fun r hr index hindex => ?_, List.forall_mem_singleton.2 hscope⟩
    exact Nat.lt_of_lt_of_le (h.scopes r hr index hindex) hstart.length_le
  · exact fun source m hm r hr new hget => hstep.bindsType (h.typeRefs source m hm r hr new hget)
  · exact fun source m hm r hr new hget =>
      hstep.bindsMember (ModuleSet.isInput_of_getElem? hm) (h.memberRefs source m hm r hr new hget)
  · intro r hr
    obtain ⟨source, m, hm, q, hq, hsearch, hspells⟩ := h.spelled r hr
    exact ⟨source, m, hm, q, hq, hsearch, hstep.spells (ModuleSet.isInput_of_getElem? hm) hspells⟩

theorem Wired.addMemberRef (h : tables.Wired l) {a : Allocator} {row : MemberRef}
    (hnext : tables.allocator.next Table.memberRef = (.ok row.token, a)) {source : Nat} {m : Module}
    (hm : l.set.inputs[source]? = some m) {r : MemberRef} (hr : r ∈ m.memberRefs)
    (hsearch : Importing.memberSearch l source r = .outside) (hspells : tables.Spells source r row)
    (hnew : ∀ r ∈ tables.memberRefs, r.said ≠ row.said) :
    (tables.addMemberRef a row).Wired l ∧
      Step l.set (fun _ => False) tables (tables.addMemberRef a row) := by
  have hstep : Step l.set (fun _ => False) tables (tables.addMemberRef a row) :=
    ⟨List.prefix_refl _, List.Subset.refl _, List.subset_append_left _ _, fun _ _ _ hget => hget,
      fun _ _ => rfl⟩
  refine ⟨⟨?_, ?_, h.references, h.scopes, h.rows, ?_, h.unshared, h.declared, h.defined, ?_, ?_, ?_⟩, hstep⟩
  · exact h.typeRows.next_other (by decide) hnext
  · rw [ImportTables.addMemberRef, List.map_append, List.map_singleton]
    exact h.memberRows.next hnext
  · rw [ImportTables.addMemberRef, List.map_append, List.map_singleton]
    refine List.nodup_append.2 ⟨h.distinct, List.nodup_singleton _, fun _ hsaid _ hlast => ?_⟩
    obtain ⟨r, hr, rfl⟩ := List.mem_map.1 hsaid
    exact List.mem_singleton.1 hlast ▸ hnew r hr
  · exact fun source m hm r hr new hget => hstep.bindsType (h.typeRefs source m hm r hr new hget)
  · exact fun source m hm r hr new hget =>
      hstep.bindsMember (ModuleSet.isInput_of_getElem? hm) (h.memberRefs source m hm r hr new hget)
  · refine List.forall_mem_append.2 ⟨fun q hq => ?_, List.forall_mem_singleton.2 ?_⟩
    · obtain ⟨source, m, hm, r, hr, hold, hspelled⟩ := h.spelled q hq
      exact ⟨source, m, hm, r, hr, hold, hstep.spells (ModuleSet.isInput_of_getElem? hm) hspelled⟩
    · exact ⟨source, m, hm, r, hr, hsearch, hstep.spells (ModuleSet.isInput_of_getElem? hm) hspells⟩

end ImportTables

end ModuleLinker
