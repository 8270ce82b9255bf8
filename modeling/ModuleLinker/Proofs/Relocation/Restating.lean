import ModuleLinker.Proofs.Plan.Primary
import ModuleLinker.Proofs.Relocation.BoundMembers
import ModuleLinker.Proofs.Relocation.TidyRows
import ModuleLinker.Proofs.Renaming.Names

namespace ModuleLinker

/-! # Importing what has been imported

The tables of a module may be such as an import leaves them: each row leads on from the rows before it and
has the next token. Importing the references of such a module by itself gives its tables again, and all of
its tokens stand for themselves.
-/

/-! ## Rows as they come -/

namespace LeadsOn

variable {set : ModuleSet} {references references' : List Identity} {rows : List TypeRef} {scope : Scope}

/-- A row adds one referenced module at most. -/
theorem references_eq (h : LeadsOn set references rows references' scope) : references' = references ∨
    ∃ identity, references' = references ++ [identity] ∧
      (∀ other ∈ references, other.agrees identity = false) ∧ set.inputIndex? identity.name = none := by
  cases h with
  | known => exact .inl rfl
  | added _ hnew hforeign => exact .inr ⟨_, rfl, hnew, hforeign⟩
  | nested => exact .inl rfl

theorem isPrefix (h : LeadsOn set references rows references' scope) : references <+: references' := by
  rcases h.references_eq with rfl | ⟨identity, rfl, -, -⟩
  · exact List.prefix_refl _
  · exact List.prefix_append _ _

end LeadsOn

namespace TypeRows

variable {set : ModuleSet} {references : List Identity} {rows : List TypeRef}

/-- No referenced module is an input. -/
theorem foreign (h : TypeRows set references rows) :
    ∀ identity ∈ references, set.inputIndex? identity.name = none := by
  induction h with
  | nil => exact fun _ hmem => absurd hmem List.not_mem_nil
  | add _ hleads _ ih =>
    rcases hleads.references_eq with rfl | ⟨identity, rfl, -, hforeign⟩
    · exact ih
    · exact List.forall_mem_append.2 ⟨ih, List.forall_mem_singleton.2 hforeign⟩

/-- No referenced module agrees with an earlier one. -/
theorem apart (h : TypeRows set references rows) :
    references.Pairwise fun other identity => other.agrees identity = false := by
  induction h with
  | nil => exact List.Pairwise.nil
  | add _ hleads _ ih =>
    rcases hleads.references_eq with rfl | ⟨identity, rfl, hnew, -⟩
    · exact ih
    · refine List.pairwise_append.2 ⟨ih, List.pairwise_singleton _ _, fun other hother _ hlast => ?_⟩
      exact List.mem_singleton.1 hlast ▸ hnew other hother

/-- The chain of each row leads to a referenced module. -/
theorem exists_chain (h : TypeRows set references rows) (hnodup : (rows.map TypeRef.token).Nodup) :
    ∀ row ∈ rows, ∃ n index name identity, Chain rows n row (some index) name ∧
      references[index]? = some identity ∧ set.inputIndex? identity.name = none := by
  have hforeign := h.foreign
  induction h with
  | nil => exact fun _ hmem => absurd hmem List.not_mem_nil
  | @add references references' rows row h hleads hnew ih =>
    rw [List.map_append, List.nodup_append] at hnodup
    have hold : ∀ r ∈ rows, ∃ n index name identity, Chain (rows ++ [row]) n r (some index) name ∧
        references'[index]? = some identity ∧ set.inputIndex? identity.name = none := by
      intro r hr
      obtain ⟨n, index, name, identity, hchain, hindex, hidentity⟩ :=
        ih hnodup.1 h.foreign r hr
      exact ⟨n, index, name, identity, hchain.mono (List.subset_append_left _ _),
        ImportTables.getElem?_of_isPrefix hleads.isPrefix hindex, hidentity⟩
    refine List.forall_mem_append.2 ⟨hold, List.forall_mem_singleton.2 ?_⟩
    generalize hscope : row.scope = scope at hleads
    cases hleads with
    | known hindex =>
      have hget := List.getElem?_eq_getElem hindex
      exact ⟨1, _, _, _, .reference hscope, hget, hforeign _ (List.mem_of_getElem? hget)⟩
    | added hindex _ hidentity =>
      exact ⟨1, _, _, _, .reference hscope, hindex ▸ List.getElem?_concat_length, hidentity⟩
    | @nested outer houter =>
      obtain ⟨n, index, name, identity, hchain, hindex, hidentity⟩ := hold outer houter
      have hne : outer.token ≠ row.token :=
        hnodup.2.2 _ (List.mem_map_of_mem houter) _ (List.mem_singleton.2 rfl)
      exact ⟨n + 1, index, _, identity, .nested hscope hne (List.mem_append_left _ houter) hchain, hindex,
        hidentity⟩

end TypeRows

/-! ## Tables that say what a module says -/

/-- The tables have the rows of a module, and of the tokens of the module by itself those of its definitions
and rows stand for themselves and the others for nothing. -/
structure ImportTables.Restates (m : Module) (tables : ImportTables) : Prop where
  references : tables.references = m.references
  typeRefs : tables.typeRefs = m.typeRefs
  memberRefs : tables.memberRefs = m.memberRefs
  typeRows : tables.allocator.HandedOut Table.typeRef (m.typeRefs.map TypeRef.token)
  memberRows : tables.allocator.HandedOut Table.memberRef (m.memberRefs.map MemberRef.token)
  get?_eq : ∀ t, tables.substitution.get? ⟨0, t⟩ = if t ∈ m.definedTokens then some t else none

namespace ImportTables.Restates

variable {m : Module} {tables : ImportTables} {t : Token}

/-- Every token stands for itself. -/
theorem counterpart_eq (h : tables.Restates m) : tables.substitution.counterpart 0 = id := by
  funext t
  rw [Substitution.counterpart, h.get?_eq]
  split
  · rfl
  · split
    · rfl
    · rfl

theorem resolve_eq (h : tables.Restates m) (ht : m.Names t) :
    tables.substitution.resolve 0 t = .ok t := by
  by_cases hshared : Substitution.isShared t
  · exact Substitution.resolve_of_isShared hshared
  · rw [Substitution.resolve_of_get? hshared]
    rw [h.get?_eq, if_pos (ht.resolve_left hshared)]

/-- One more token may be made to stand for itself. -/
theorem get?_insert (h : tables.Restates m) (new t : Token) :
    (tables.substitution.insert ⟨0, new⟩ new).get? ⟨0, t⟩ =
      if t ∈ m.definedTokens ∨ t = new then some t else none := by
  have hget : (tables.substitution.insert ⟨0, new⟩ new).get? ⟨0, t⟩ =
      if t = new then some new else tables.substitution.get? ⟨0, t⟩ := by
    rw [Substitution.get?_insert]
    simp
  rw [hget, h.get?_eq]
  by_cases heq : t = new
  · simp [heq]
  · simp [heq]

end ImportTables.Restates

namespace Module

/-- The module with other tables of references. -/
def withRows (m : Module) (references : List Identity) (typeRefs : List TypeRef)
    (memberRefs : List MemberRef) : Module := { m with references, typeRefs, memberRefs }

variable {m : Module} {references : List Identity} {typeRefs : List TypeRef} {memberRefs : List MemberRef}
  {t : Token}

theorem mem_definedTokens_withRows : t ∈ (m.withRows references typeRefs memberRefs).definedTokens ↔
    t ∈ m.allTypes.flatMap TypeDef.definedTokens ∨ t ∈ typeRefs.map TypeRef.token ∨
      t ∈ memberRefs.map MemberRef.token := by
  rw [definedTokens_eq, List.mem_append, List.mem_append, or_assoc]
  rfl

end Module

/-- The first tokens of a table are those of its first rows. -/
theorem Token.InOrder.of_split {α : Type} {f : α → Token} {table : UInt8} {xs before after : List α} {x : α}
    (h : InOrder table (xs.map f)) (hsplit : xs = before ++ x :: after) :
    InOrder table ((before ++ [x]).map f) := by
  rw [hsplit, List.append_cons, List.map_append] at h
  exact h.left

namespace ImportTables.Restates

variable {m : Module} {tables : ImportTables} {references : List Identity} {before after : List TypeRef}

/-- A row of types that has not been imported stands for nothing. -/
theorem get?_typeRef (htables : tables.Restates (m.withRows references before [])) (hm : m.WellNumbered)
    {row : TypeRef} (hsplit : m.typeRefs = before ++ row :: after) :
    tables.substitution.get? ⟨0, row.token⟩ = none := by
  have hrow : row ∈ m.typeRefs := hsplit ▸ List.mem_append_right _ List.mem_cons_self
  have hnodup := hm.identified.nodup_typeRefs
  rw [hsplit, List.map_append, List.map_cons, List.nodup_append] at hnodup
  rw [htables.get?_eq, if_neg]
  rw [Module.mem_definedTokens_withRows]
  rintro (hmem | hmem | hmem)
  · exact hm.identified.typeRef_ne hrow hmem
  · exact hnodup.2.2 _ hmem _ List.mem_cons_self rfl
  · exact absurd hmem List.not_mem_nil

/-- A row of members that has not been imported stands for nothing. -/
theorem get?_memberRef {before after : List MemberRef}
    (htables : tables.Restates (m.withRows m.references m.typeRefs before)) (hm : m.WellNumbered)
    {r : MemberRef} (hsplit : m.memberRefs = before ++ r :: after) :
    tables.substitution.get? ⟨0, r.token⟩ = none := by
  have hr : r ∈ m.memberRefs := hsplit ▸ List.mem_append_right _ List.mem_cons_self
  have hnodup := hm.identified.nodup_memberRefs
  rw [hsplit, List.map_append, List.map_cons, List.nodup_append] at hnodup
  rw [htables.get?_eq, if_neg]
  rw [Module.mem_definedTokens_withRows, ← or_assoc, ← List.mem_append]
  rintro (hmem | hmem)
  · exact hm.identified.memberRef_ne hr hmem
  · exact hnodup.2.2 _ hmem _ List.mem_cons_self rfl

end ImportTables.Restates

namespace Importing

open ImportTables

variable {m : LoadedModule} {p : Policy} {tables : ImportTables} {references references' : List Identity}
  {before after : List TypeRef} {row : TypeRef} {index : UInt32} {fails : Fault → Prop}

/-! ## References to types -/

/-- The index of a referenced module is what it was. -/
theorem reference_restates (hrows : TypeRows (.alone m) references before)
    (hleads : LeadsOn (.alone m) references before references' (.reference index)) {identity : Identity}
    (hidentity : references'[index.toNat]? = some identity) (htables : tables.references = references) :
    Ends tables (reference identity)
      (fun tables' i => i = index ∧ tables' = { tables with references := references' }) fails := by
  subst htables
  cases hleads with
  | known hindex =>
    have hget := List.getElem?_eq_getElem hindex
    obtain rfl : tables.references[index.toNat] = identity := Option.some.inj (hget.symm.trans hidentity)
    have hfound : tables.references.findIdx? (·.agrees tables.references[index.toNat]) =
        some index.toNat := by
      rw [List.findIdx?_eq_some_iff_getElem]
      refine ⟨hindex, by simp [Identity.agrees], fun j hj => ?_⟩
      rw [List.pairwise_iff_getElem.1 hrows.apart j index.toNat (by omega) hindex hj]
      exact Bool.false_ne_true
    refine .of_eq (reference_found hfound) ⟨?_, rfl⟩
    exact UInt32.toNat_inj.1 (UInt32.toNat_ofNat_of_lt' index.toNat_lt)
  | @added _ other hindex hnew hforeign =>
    have hlast : (tables.references ++ [other])[index.toNat]? = some other :=
      hindex ▸ List.getElem?_concat_length
    obtain rfl : other = identity := Option.some.inj (hlast.symm.trans hidentity)
    refine .of_eq (reference_added (List.findIdx?_eq_none_iff.2 hnew)) ⟨?_, rfl⟩
    rw [← hindex]
    exact UInt32.toNat_inj.1 (UInt32.toNat_ofNat_of_lt' index.toNat_lt)

/-- A row that says what none before it says is added with its token. -/
theorem typeRefRow_restates (hnew : ∀ r ∈ before, r.said ≠ row.said)
    (hinOrder : Token.InOrder Table.typeRef ((before ++ [row]).map TypeRef.token))
    (htables : tables.Restates (m.module.withRows references before [])) {scope : Scope}
    (hscope : row.scope = scope) :
    Ends { tables with references := references' } (typeRefRow scope row.namespaceName row.name)
      (fun tables' new => new = row.token ∧ ∃ a, tables.allocator.next Table.typeRef = (.ok row.token, a) ∧
        tables' = tables.addTypeRef references' a row) fails := by
  subst hscope
  have hrows : tables.typeRefs = before := htables.typeRefs
  have hnone : typeRow? { tables with references := references' } row.scope row.namespaceName row.name =
      none := by
    refine List.find?_eq_none.2 fun r hr heq => ?_
    simp only [Bool.and_eq_true, beq_iff_eq] at heq
    obtain ⟨⟨hscope, hnamespace⟩, hname⟩ := heq
    exact hnew r (hrows ▸ hr) (Prod.ext hscope (Prod.ext hnamespace hname))
  rw [List.map_append, List.map_singleton] at hinOrder
  obtain ⟨a, hnext⟩ := htables.typeRows.exists_next hinOrder
  exact .of_eq (typeRefRow_added hnone hnext) ⟨rfl, a, hnext, rfl⟩

/-- With its own token for a counterpart, a row that has been added stands for itself. -/
theorem keepRow_restates (htables : tables.Restates (m.module.withRows references before [])) {a : Allocator}
    (hnext : tables.allocator.next Table.typeRef = (.ok row.token, a)) :
    Ends (tables.addTypeRef references' a row) (do keep ⟨0, row.token⟩ row.token; return row.token)
      (fun tables' _ => tables'.Restates (m.module.withRows references' (before ++ [row]) [])) fails := by
  refine .bind (p := fun tables' _ => tables' = (tables.addTypeRef references' a row).keep ⟨0, row.token⟩
    row.token) (.change rfl) ?_
  rintro _ _ rfl
  refine .pure ⟨rfl, congrArg (· ++ [row]) htables.typeRefs, htables.memberRefs, ?_, ?_, fun t => ?_⟩
  · have hrows := htables.typeRows.next hnext
    rwa [← List.map_singleton, ← List.map_append] at hrows
  · exact htables.memberRows.next_other (by decide) hnext
  · refine (htables.get?_insert row.token t).trans (if_congr ?_ rfl rfl)
    simp only [Module.mem_definedTokens_withRows, List.map_append, List.map_singleton, List.mem_append,
      List.mem_singleton]
    tauto

/-- A token that stands for itself is left alone. -/
theorem typeRefWithin_known {l : Linkage} {source steps : Nat} {t : Token}
    (h : tables.substitution.get? ⟨source, t⟩ = some t) :
    Ends tables (typeRefWithin l source steps t) (fun tables' new => tables' = tables ∧ new = t) fails := by
  have hfrom : ∀ enclosing, Ends tables (typeRefFrom l source enclosing t)
      (fun tables' new => tables' = tables ∧ new = t) fails := by
    intro enclosing
    refine .get ?_
    rw [h]
    exact .pure ⟨rfl, rfl⟩
  cases steps with
  | zero => exact hfrom none
  | succ steps => exact hfrom _

/-- Importing the next row adds it. -/
theorem typeRef_restates (hm : m.module.WellNumbered)
    (hinOrder : Token.InOrder Table.typeRef (m.module.typeRefs.map TypeRef.token))
    (hsplit : m.module.typeRefs = before ++ row :: after) (hreferences : references' <+: m.module.references)
    (hbefore : TypeRows (.alone m) references before)
    (hleads : LeadsOn (.alone m) references before references' row.scope)
    (hnew : ∀ r ∈ before, r.said ≠ row.said)
    (htables : tables.Restates (m.module.withRows references before [])) :
    Ends tables (typeRef (.ofSet (.alone m) p) 0 row.token) (fun tables' _ =>
      tables'.Restates (m.module.withRows references' (before ++ [row]) [])) fails := by
  have hmodule : (Linkage.ofSet (.alone m) p).set.source? 0 = some m.module := rfl
  have hsplit' : m.module.typeRefs = (before ++ [row]) ++ after := by simp [hsplit]
  have hrow : row ∈ m.module.typeRefs := hsplit ▸ List.mem_append_right _ List.mem_cons_self
  have hnodup := hm.identified.nodup_typeRefs
  have hfirst := hinOrder.of_split hsplit
  have hsubset : before ++ [row] ⊆ m.module.typeRefs := hsplit' ▸ List.subset_append_left _ _
  -- the chain of the row leads to a referenced module
  obtain ⟨n, i, name, identity, hchain, hindex, hforeign⟩ :=
    (hbefore.add hleads hnew).exists_chain (by
      rw [hsplit', List.map_append] at hnodup
      exact hnodup.of_append_left) row (List.mem_append_right _ (List.mem_singleton.2 rfl))
  have hchain := hchain.mono hsubset
  have hidentity := getElem?_of_isPrefix hreferences hindex
  obtain ⟨steps, hsteps⟩ : ∃ steps, m.module.typeRefs.length = steps + 1 :=
    ⟨m.module.typeRefs.length - 1, by have := List.length_pos_of_mem hrow; omega⟩
  refine (module_ends hmodule).bind ?_
  rintro _ _ ⟨rfl, rfl⟩
  rw [hsteps]
  refine .get ?_
  rw [htables.get?_typeRef hm hsplit]
  refine (module_ends hmodule).bind ?_
  rintro _ _ ⟨rfl, rfl⟩
  rw [Module.typeRef?_of_mem hnodup hrow, Module.typeRefName?_of_chain hnodup hrow hchain,
    Module.typeRefTarget?_of_chain hnodup hrow hchain]
  have hinput : inputOf? (.ofSet (.alone m) p) 0 (some identity) = none := hforeign
  dsimp only
  rw [Option.bind_some, hidentity, hinput]
  dsimp only
  generalize hscope : row.scope = scope at hleads ⊢
  have hrest : ∀ tables', tables' = { tables with references := references' } →
      Ends tables' (typeRefRow scope row.namespaceName row.name >>= fun new => do
        keep ⟨0, row.token⟩ new; return new) (fun tables' _ =>
          tables'.Restates (m.module.withRows references' (before ++ [row]) [])) fails := by
    rintro _ rfl
    refine (typeRefRow_restates hnew hfirst htables hscope).bind ?_
    rintro _ _ ⟨rfl, a, hnext, rfl⟩
    exact keepRow_restates htables hnext
  cases scope with
  | reference index =>
    obtain ⟨-, hroot, -⟩ := (Chain.reference hscope).unique hnodup hchain
    obtain rfl := Option.some.inj hroot
    dsimp only
    rw [hidentity]
    dsimp only
    refine (reference_restates hbefore hleads hindex htables.references).bind ?_
    rintro _ _ ⟨rfl, hadded⟩
    exact hrest _ hadded
  | enclosing outer =>
    cases hleads with
    | @nested outer houter =>
      have hknown : tables.substitution.get? ⟨0, outer.token⟩ = some outer.token := by
        rw [htables.get?_eq, if_pos]
        exact Module.mem_definedTokens_withRows.2 (.inr (.inl (List.mem_map_of_mem houter)))
      refine (typeRefWithin_known hknown).bind ?_
      rintro _ tables' ⟨rfl, rfl⟩
      have hreferences : tables'.references = references := htables.references
      exact hrest _ (by rw [← hreferences])
  | here => cases hleads

/-- Importing the first rows gives them again. -/
theorem typeRefs_restate (hm : m.module.WellNumbered)
    (hinOrder : Token.InOrder Table.typeRef (m.module.typeRefs.map TypeRef.token)) {rows : List TypeRef}
    (h : TypeRows (.alone m) references rows) (hrows : rows <+: m.module.typeRefs)
    (hreferences : references <+: m.module.references)
    (htables : tables.Restates (m.module.withRows [] [] [])) :
    Ends tables (rows.forM fun row => do let _ ← typeRef (.ofSet (.alone m) p) 0 row.token)
      (fun tables' _ => tables'.Restates (m.module.withRows references rows [])) fails := by
  induction h with
  | nil => exact .pure htables
  | @add references references' before row h hleads hnew ih =>
    obtain ⟨after, hsplit⟩ := hrows
    have hsplit : m.module.typeRefs = before ++ row :: after := by simp [← hsplit]
    rw [List.forM_eq_forM, List.forM_append]
    refine (ih ⟨row :: after, hsplit.symm⟩ (hleads.isPrefix.trans hreferences)).bind fun _ tables' hbefore => ?_
    rw [List.forM_cons, bind_assoc]
    refine (typeRef_restates hm hinOrder hsplit hreferences h hleads hnew hbefore).bind ?_
    exact fun _ _ hadded => .pure hadded

/-! ## References to members -/

/-- A token of the module that has been imported stands for itself. -/
theorem type_restates {m' : Module} (htables : tables.Restates m') {t : Token} (ht : m'.Names t) :
    Ends tables (type (.ofSet (.alone m) p) 0 t) (fun tables' new => tables' = tables ∧ new = t) fails := by
  refine .get ?_
  rw [htables.get?_eq]
  by_cases hknown : t ∈ m'.definedTokens
  · rw [if_pos hknown]
    exact .pure ⟨rfl, rfl⟩
  rw [if_neg hknown]
  have hshared := ht.resolve_right hknown
  have htable := Substitution.table_of_isShared hshared
  have hreference : t.table ≠ Table.typeRef := by rcases htable with h | h <;> rw [h] <;> decide
  have hdefinition : t.table ≠ Table.typeDef := by rcases htable with h | h <;> rw [h] <;> decide
  dsimp only
  rw [if_neg hreference, if_neg fun h => hdefinition h.1]
  refine .get ?_
  rw [Substitution.resolve_of_isShared hshared]
  exact .pure ⟨rfl, rfl⟩

/-- A reference of the module that leads out of it says what it said. -/
theorem externalMember_restates {m' : Module} {r : MemberRef} (htables : tables.Restates m')
    (huses : ∀ t ∈ r.parent :: r.signature.tokens, m'.Names t) (hnew : ∀ q ∈ m'.memberRefs, q.said ≠ r.said)
    (hinOrder : Token.InOrder Table.memberRef ((m'.memberRefs ++ [r]).map MemberRef.token)) :
    Ends tables (externalMember (.ofSet (.alone m) p) 0 r) (fun tables' new => new = r.token ∧
      ∃ a, tables.allocator.next Table.memberRef = (.ok r.token, a) ∧ tables' = tables.addMemberRef a r)
      fails := by
  have htype : ∀ t ∈ r.parent :: r.signature.tokens, ∀ s, s = tables →
      Ends s (type (.ofSet (.alone m) p) 0 t) (fun s' u =>
        Refines (· = tables) (fun _ => Except.ok (ε := Fault)) s s' ∧ Except.ok (ε := Fault) t = .ok u) fails := by
    rintro t ht _ rfl
    refine (type_restates htables (huses t ht)).mono ?_
    rintro _ _ ⟨rfl, rfl⟩
    exact ⟨.refl rfl, rfl⟩
  obtain ⟨hparent, hsignature⟩ := List.forall_mem_cons.1 htype
  refine (hparent tables rfl).bind ?_
  rintro _ s ⟨hs, ⟨⟩⟩
  obtain rfl := hs.holds
  refine (r.signature.mapTokens_ends hsignature rfl).bind ?_
  rintro signature s' ⟨hs', hsame⟩
  obtain rfl := hs'.holds
  have hanswers : r.signature.mapTokens (Except.ok (ε := Fault)) = .ok (r.signature.rename id) :=
    MemberSig.mapTokens_answers fun _ _ => rfl
  rw [MemberSig.rename_id] at hanswers
  obtain rfl := Except.ok.inj (hsame.symm.trans hanswers)
  have hnone : memberRow? s' r.parent r.name r.signature = none := by
    refine List.find?_eq_none.2 fun q hq heq => ?_
    simp only [Bool.and_eq_true, beq_iff_eq] at heq
    obtain ⟨⟨hparent, hname⟩, hsignature⟩ := heq
    exact hnew q (htables.memberRefs ▸ hq) (Prod.ext hparent (Prod.ext hname hsignature))
  rw [List.map_append, List.map_singleton] at hinOrder
  obtain ⟨a, hnext⟩ := htables.memberRows.exists_next hinOrder
  exact .of_eq (memberRefRow_added hnone hnext) ⟨rfl, a, hnext, rfl⟩

theorem keepMember_restates {m' : Module} {rows : List TypeRef} {before : List MemberRef} {r : MemberRef}
    (htables : tables.Restates (m'.withRows references rows before)) {a : Allocator}
    (hnext : tables.allocator.next Table.memberRef = (.ok r.token, a)) :
    Ends (tables.addMemberRef a r) (do keep ⟨0, r.token⟩ r.token; return r.token)
      (fun tables' _ => tables'.Restates (m'.withRows references rows (before ++ [r]))) fails := by
  refine .bind (p := fun tables' _ => tables' = (tables.addMemberRef a r).keep ⟨0, r.token⟩ r.token)
    (.change rfl) ?_
  rintro _ _ rfl
  refine .pure ⟨htables.references, htables.typeRefs, congrArg (· ++ [r]) htables.memberRefs, ?_, ?_,
    fun t => ?_⟩
  · exact htables.typeRows.next_other (by decide) hnext
  · have hrows := htables.memberRows.next hnext
    rwa [← List.map_singleton, ← List.map_append] at hrows
  · refine (htables.get?_insert r.token t).trans (if_congr ?_ rfl rfl)
    simp only [Module.mem_definedTokens_withRows, List.map_append, List.map_singleton, List.mem_append,
      List.mem_singleton]
    tauto

/-- Importing the next row adds it. -/
theorem memberRef_restates (hm : m.module.WellNumbered)
    (hinOrder : Token.InOrder Table.memberRef (m.module.memberRefs.map MemberRef.token))
    {before after : List MemberRef} {r : MemberRef} (hsplit : m.module.memberRefs = before ++ r :: after)
    (hsearch : memberSearch (.ofSet (.alone m) p) 0 r = .outside)
    (huses : ∀ t ∈ r.parent :: r.signature.tokens,
      (m.module.withRows m.module.references m.module.typeRefs before).Names t)
    (hnew : ∀ q ∈ before, q.said ≠ r.said)
    (htables : tables.Restates (m.module.withRows m.module.references m.module.typeRefs before)) :
    Ends tables (memberRef (.ofSet (.alone m) p) 0 r.token) (fun tables' _ =>
      tables'.Restates (m.module.withRows m.module.references m.module.typeRefs (before ++ [r]))) fails := by
  have hmodule : (Linkage.ofSet (.alone m) p).set.source? 0 = some m.module := rfl
  have hr : r ∈ m.module.memberRefs := hsplit ▸ List.mem_append_right _ List.mem_cons_self
  have hnodup := hm.identified.nodup_memberRefs
  have hexternal : Ends tables (externalMember (.ofSet (.alone m) p) 0 r >>= fun new => do
      keep ⟨0, r.token⟩ new; return new) (fun tables' _ => tables'.Restates
        (m.module.withRows m.module.references m.module.typeRefs (before ++ [r]))) fails := by
    refine (externalMember_restates htables huses hnew (hinOrder.of_split hsplit)).bind ?_
    rintro _ _ ⟨rfl, a, hnext, rfl⟩
    exact keepMember_restates htables hnext
  refine .get ?_
  rw [htables.get?_memberRef hm hsplit]
  refine (module_ends hmodule).bind ?_
  rintro _ _ ⟨rfl, rfl⟩
  rw [memberRef?_of_mem hnodup hr]
  dsimp only
  unfold memberSearch at hsearch
  split at hsearch
  case h_1 t ht =>
    rw [ht]
    dsimp only
    rw [mergedMember_eq, hsearch]
    exact hexternal
  case h_2 ht =>
    rw [ht]
    exact hexternal

end Importing

namespace Relocation

open ImportTables Importing

variable {m : LoadedModule} {p : Policy} {plan : Plan} {tables : ImportTables} {fails : Fault → Prop}

/-! ## All references of a module -/

/-- The references of a module are such as an import leaves them. -/
structure References (m : LoadedModule) (p : Policy) : Prop where
  typeTokens : Token.InOrder Table.typeRef (m.module.typeRefs.map TypeRef.token)
  memberTokens : Token.InOrder Table.memberRef (m.module.memberRefs.map MemberRef.token)
  typeRows : TypeRows (.alone m) m.module.references m.module.typeRefs
  distinct : (m.module.memberRefs.map MemberRef.said).Nodup
  outside : ∀ r ∈ m.module.memberRefs, memberSearch (.ofSet (.alone m) p) 0 r = .outside
  uses : ∀ before r after, m.module.memberRefs = before ++ r :: after → ∀ t ∈ r.parent :: r.signature.tokens,
    (m.module.withRows m.module.references m.module.typeRefs before).Names t

namespace References

theorem importModule_restates (h : References m p) (hm : m.module.WellNumbered)
    (htables : tables.Restates (m.module.withRows [] [] [])) :
    Ends tables (importModule (.ofSet (.alone m) p) 0 m.module)
      (fun tables' _ => tables'.Restates m.module) fails := by
  refine (typeRefs_restate hm h.typeTokens h.typeRows (List.prefix_refl _) (List.prefix_refl _) htables).bind ?_
  intro _ tables' htables'
  refine Ends.forM (motive := fun done (tables : ImportTables) => tables.Restates
    (m.module.withRows m.module.references m.module.typeRefs done)) htables' ?_
  intro before r after hsplit tables hbefore
  have hdistinct := h.distinct
  rw [← hsplit, List.map_append, List.map_cons, List.nodup_append] at hdistinct
  have hr : r ∈ m.module.memberRefs := hsplit ▸ List.mem_append_right _ List.mem_cons_self
  refine (memberRef_restates hm h.memberTokens hsplit.symm (h.outside r hr) (h.uses before r after hsplit.symm)
    (fun q hq => ?_) hbefore).bind fun _ _ hadded => .pure hadded
  exact hdistinct.2.2 _ (List.mem_map_of_mem hq) _ List.mem_cons_self

end References

/-- The places of all attributes of the module. -/
def attributePlaces (m : Module) : List PlannedAttribute :=
  m.attributes.zipIdx.map fun (_, i) => ⟨.input 0, i⟩

theorem importAttributes_restate (htables : tables.Restates m.module)
    (hattributes : ∀ a ∈ m.module.attributes, m.module.Names a.type) :
    Ends tables ((attributePlaces m.module).mapM (importAttribute (.ofSet (.alone m) p)))
      (fun tables' as => tables' = tables ∧ as = m.module.attributes) fails := by
  have hmodule : (Linkage.ofSet (.alone m) p).set.source? 0 = some m.module := rfl
  rw [attributePlaces, List.mapM_map]
  refine Ends.mono (Ends.mapM (motive := fun done as tables' => tables' = tables ∧ as = done.map Prod.fst)
    ⟨rfl, rfl⟩ ?_) ?_
  · rintro done ⟨a, i⟩ rest hsplit as _ ⟨rfl, rfl⟩
    have hget : m.module.attributes[i]? = some a := by
      refine List.mk_mem_zipIdx_iff_getElem?.1 ?_
      exact hsplit ▸ List.mem_append_right _ List.mem_cons_self
    refine (module_ends hmodule).bind ?_
    rintro _ _ ⟨rfl, rfl⟩
    dsimp only
    rw [hget]
    refine (type_restates htables (hattributes a (List.mem_of_getElem? hget))).bind ?_
    rintro _ _ ⟨rfl, rfl⟩
    refine .pure ⟨rfl, ?_⟩
    rw [List.map_append, List.map_singleton]
  · rintro as tables' ⟨rfl, rfl⟩
    exact ⟨rfl, List.zipIdx_map_fst _ _⟩

end Relocation

end ModuleLinker
