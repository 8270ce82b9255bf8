import ModuleLinker.Proofs.ModuleSet
import ModuleLinker.Proofs.Relocation.Substitution
import ModuleLinker.Relocation.Output

namespace ModuleLinker

/-! # The tables while references are imported

Importing starts from the substitution of the definitions and adds rows and counterparts. What it
never does is to leave a token behind that names nothing: each is shared by all modules, names a
definition of the output, or names a row.
-/

/-- What holds of each element of a list and those before it holds when one more comes behind them, if it
holds of that one. -/
theorem forall_split_concat {p : List α → α → Prop} {xs : List α} {x : α}
    (h : ∀ before y after, xs = before ++ y :: after → p before y) (hx : p xs x) :
    ∀ before y after, xs ++ [x] = before ++ y :: after → p before y := by
  intro before y after hsplit
  rcases List.eq_nil_or_concat after with rfl | ⟨after, last, rfl⟩
  · obtain ⟨rfl, hlast⟩ := List.append_inj' hsplit rfl
    exact List.singleton_inj.1 hlast ▸ hx
  · rw [List.concat_eq_append, ← List.cons_append, ← List.append_assoc] at hsplit
    exact h before y after (List.append_inj_left' hsplit rfl)

/-- Whether a token may get its counterpart by an import: in an input, only those of references do. -/
def ModuleSet.Imports (set : ModuleSet) (k : SourceToken) : Prop :=
  set.isInput k.source → ∃ m, set.inputs[k.source]? = some m ∧
    (k.token ∈ m.typeRefs.map TypeRef.token ∨ k.token ∈ m.memberRefs.map MemberRef.token)

namespace ModuleSet

variable {set : ModuleSet}

theorem imports_typeRef {source : Nat} {m : Module} (hm : set.source? source = some m) {t : Token}
    {row : TypeRef} (hrow : m.typeRef? t = some row) : set.Imports ⟨source, t⟩ := by
  have htoken : row.token = t := by simpa using List.find?_some hrow
  exact fun hinput => ⟨m, getElem?_of_source? hm hinput,
    .inl (htoken ▸ List.mem_map_of_mem (List.mem_of_find?_eq_some hrow))⟩

theorem imports_memberRef {source : Nat} {m : Module} (hm : set.source? source = some m) {t : Token}
    {row : MemberRef} (hrow : m.memberRef? t = some row) : set.Imports ⟨source, t⟩ := by
  have htoken : row.token = t := by simpa using List.find?_some hrow
  exact fun hinput => ⟨m, getElem?_of_source? hm hinput,
    .inr (htoken ▸ List.mem_map_of_mem (List.mem_of_find?_eq_some hrow))⟩

/-- Where tokens are numbered well, what is imported for an input belongs to a table of references. -/
theorem Imports.table (hset : set.WellNumbered) {k : SourceToken} (h : set.Imports k)
    (hinput : set.isInput k.source) : k.token.table = Table.typeRef ∨ k.token.table = Table.memberRef := by
  obtain ⟨m, hm, hmem⟩ := h hinput
  rcases hmem with htype | hmember
  · obtain ⟨r, hr, heq⟩ := List.mem_map.1 htype
    exact .inl (heq ▸ (hset m (List.mem_of_getElem? hm)).typeRefs r hr)
  · obtain ⟨r, hr, heq⟩ := List.mem_map.1 hmember
    exact .inr (heq ▸ (hset m (List.mem_of_getElem? hm)).memberRefs r hr)

end ModuleSet

namespace ImportTables

/-! ## Tokens that name something -/

/-- Whether a token is shared by all modules, the counterpart of a definition or that of a row. -/
def Names (start : Substitution) (tables : ImportTables) (t : Token) : Prop :=
  Substitution.isShared t ∨ (∃ k, start.get? k = some t) ∨
    t ∈ tables.typeRefs.map TypeRef.token ∨ t ∈ tables.memberRefs.map MemberRef.token

/-- Nothing of the first tables is missing in the second ones. -/
structure Grows (tables tables' : ImportTables) : Prop where
  references : tables.references.length ≤ tables'.references.length
  typeRefs : tables.typeRefs ⊆ tables'.typeRefs
  memberRefs : tables.memberRefs ⊆ tables'.memberRefs

/-- Whether the scope of a type reference leads to something. -/
def Leads (start : Substitution) (tables : ImportTables) : Scope → Prop
  | .reference index => index.toNat < tables.references.length
  | .enclosing outer => tables.Names start outer
  | .here => True

/-- What importing keeps: only references get counterparts beside those of the definitions, and all
tokens name something, those of a row for a member without that row and those behind it. -/
structure Closed (set : ModuleSet) (start : Substitution) (tables : ImportTables) : Prop where
  kept : ∀ k t, start.get? k = some t → tables.substitution.get? k = some t
  added : ∀ k t, tables.substitution.get? k = some t → start.get? k = some t ∨ set.Imports k
  counterparts : ∀ k t, tables.substitution.get? k = some t → tables.Names start t
  typeRefs : ∀ r ∈ tables.typeRefs, tables.Leads start r.scope
  memberRefs : ∀ before r after, tables.memberRefs = before ++ r :: after →
    ∀ t ∈ r.parent :: r.signature.tokens, Names start { tables with memberRefs := before } t

variable {set : ModuleSet} {start : Substitution} {tables tables' : ImportTables}

namespace Grows

theorem refl (tables : ImportTables) : tables.Grows tables :=
  ⟨Nat.le_refl _, List.Subset.refl _, List.Subset.refl _⟩

theorem trans {tables'' : ImportTables} (h : tables.Grows tables') (h' : tables'.Grows tables'') :
    tables.Grows tables'' :=
  ⟨Nat.le_trans h.references h'.references, List.Subset.trans h.typeRefs h'.typeRefs,
    List.Subset.trans h.memberRefs h'.memberRefs⟩

theorem names (h : tables.Grows tables') {t : Token} (ht : tables.Names start t) :
    tables'.Names start t := by
  rcases ht with hshared | hstart | htype | hmember
  · exact .inl hshared
  · exact .inr (.inl hstart)
  · exact .inr (.inr (.inl (List.map_subset _ h.typeRefs htype)))
  · exact .inr (.inr (.inr (List.map_subset _ h.memberRefs hmember)))

theorem leads (h : tables.Grows tables') {scope : Scope} (hs : tables.Leads start scope) :
    tables'.Leads start scope := by
  cases scope with
  | reference index => exact Nat.lt_of_lt_of_le hs h.references
  | enclosing outer => exact h.names hs
  | here => exact hs

end Grows

theorem names_typeRef {r : TypeRef} (h : r ∈ tables.typeRefs) : tables.Names start r.token :=
  .inr (.inr (.inl (List.mem_map_of_mem h)))

theorem names_memberRef {r : MemberRef} (h : r ∈ tables.memberRefs) : tables.Names start r.token :=
  .inr (.inr (.inr (List.mem_map_of_mem h)))

namespace Closed

/-- The tables before anything is imported. -/
theorem initial (set : ModuleSet) (start : Substitution) (a : Allocator) :
    Closed set start ⟨start, a, [], [], []⟩ :=
  ⟨fun _ _ h => h, fun _ _ h => .inl h, fun k _ h => .inr (.inl ⟨k, h⟩), nofun,
    fun _ _ _ hrows => absurd hrows (by simp)⟩

theorem names_memberRefs (h : tables.Closed set start) {r : MemberRef} (hr : r ∈ tables.memberRefs)
    {t : Token} (ht : t ∈ r.parent :: r.signature.tokens) : tables.Names start t := by
  obtain ⟨before, after, hrows⟩ := List.append_of_mem hr
  have hgrows : Grows { tables with memberRefs := before } tables :=
    ⟨Nat.le_refl _, List.Subset.refl _, hrows ▸ List.subset_append_left _ _⟩
  exact hgrows.names (h.memberRefs before r after hrows t ht)

/-- What a token is resolved to names something. -/
theorem names_of_resolve (h : tables.Closed set start) {source : Nat} {t new : Token}
    (hnew : tables.substitution.resolve source t = .ok new) : tables.Names start new := by
  rcases Substitution.resolve_eq_ok hnew with ⟨hshared, rfl⟩ | ⟨-, hget⟩
  · exact .inl hshared
  · exact h.counterparts _ _ hget

/-- A counterpart may be set where the definitions have none. -/
theorem insert (h : tables.Closed set start) {k : SourceToken} (hk : start.get? k = none)
    (himports : set.Imports k) {t : Token} (ht : tables.Names start t) :
    Closed set start { tables with substitution := tables.substitution.insert k t } := by
  refine ⟨?_, ?_, ?_, h.typeRefs, h.memberRefs⟩
  · intro k' t' hget
    -- a definition has its counterpart from the start on
    have hne : k' ≠ k := by
      rintro rfl
      exact nomatch hk.symm.trans hget
    rw [Substitution.get?_insert_of_ne _ hne]
    exact h.kept k' t' hget
  · intro k' t' hget
    rw [Substitution.get?_insert] at hget
    split at hget
    case isTrue heq => exact .inr (heq ▸ himports)
    case isFalse => exact h.added k' t' hget
  · intro k' t' hget
    rw [Substitution.get?_insert] at hget
    split at hget
    · cases hget
      exact ht
    · exact h.counterparts k' t' hget

/-- Growing keeps the rows that are there closed, so that only the new ones are left to look at. -/
theorem grow (h : tables.Closed set start) (hgrows : tables.Grows tables')
    (hsub : tables'.substitution = tables.substitution)
    (htypes : ∀ r ∈ tables'.typeRefs, r ∈ tables.typeRefs ∨ tables.Leads start r.scope)
    (hmembers : tables'.memberRefs = tables.memberRefs ∨ ∃ r, tables'.memberRefs = tables.memberRefs ++ [r] ∧
      ∀ t ∈ r.parent :: r.signature.tokens, tables.Names start t) : tables'.Closed set start := by
  have hbefore : ∀ before, Grows { tables with memberRefs := before } { tables' with memberRefs := before } :=
    fun before => ⟨hgrows.references, hgrows.typeRefs, List.Subset.refl _⟩
  constructor
  · rw [hsub]
    exact h.kept
  · rw [hsub]
    exact h.added
  · intro k t hget
    rw [hsub] at hget
    exact hgrows.names (h.counterparts k t hget)
  · intro r hr
    exact hgrows.leads ((htypes r hr).elim (h.typeRefs r) id)
  · intro before r after hrows t ht
    rcases hmembers with hsame | ⟨row, hadded, hnew⟩
    · exact (hbefore before).names (h.memberRefs before r after (hsame.symm.trans hrows) t ht)
    · -- the new row has all rows before it
      rw [hadded] at hrows
      refine (hbefore before).names (forall_split_concat
        (p := fun before r => ∀ t ∈ r.parent :: r.signature.tokens,
          Names start { tables with memberRefs := before } t) h.memberRefs hnew before r after hrows t ht)

end Closed

end ImportTables

/-! ## Computations that keep the tables closed -/

namespace Importing

open ImportTables

/-- From these tables on, `x` keeps closed tables closed and drops no row, and where it answers, the
property holds of the tables after it and the answer. -/
def Keeps (set : ModuleSet) (start : Substitution) (tables : ImportTables) (x : Importing α)
    (post : ImportTables → α → Prop) : Prop :=
  tables.Closed set start → ∀ a tables', x.run.run tables = (.ok a, tables') →
    tables'.Closed set start ∧ tables.Grows tables' ∧ post tables' a

namespace Keeps

variable {set : ModuleSet} {start : Substitution} {tables : ImportTables} {x : Importing α}
  {f : α → Importing β} {p p' : ImportTables → α → Prop} {q : ImportTables → β → Prop}

theorem pure {a : α} (h : p tables a) : Keeps set start tables (Pure.pure a) p := by
  intro hclosed b tables' hrun
  cases hrun
  exact ⟨hclosed, .refl _, h⟩

theorem throw (fault : Fault) : Keeps set start tables (MonadExcept.throw fault : Importing α) p :=
  fun _ _ _ hrun => nomatch hrun

theorem unbound (cause : Unbound) : Keeps set start tables (Importing.unbound cause : Importing α) p :=
  throw _

theorem bind (hx : Keeps set start tables x p)
    (hf : ∀ a tables', tables.Grows tables' → p tables' a → Keeps set start tables' (f a) q) :
    Keeps set start tables (x >>= f) q := by
  intro hclosed b tables'' hrun
  rcases run_bind_eq_ok hrun with ⟨a, tables', hfirst, hrest⟩
  rcases hx hclosed a tables' hfirst with ⟨hclosed', hgrows, ha⟩
  rcases hf a tables' hgrows ha hclosed' b tables'' hrest with ⟨hclosed'', hgrows', hb⟩
  exact ⟨hclosed'', hgrows.trans hgrows', hb⟩

/-- Whatever looks at the tables may rely on their being closed. -/
theorem get {f : ImportTables → Importing β}
    (hf : tables.Closed set start → Keeps set start tables (f tables) q) :
    Keeps set start tables (MonadState.get >>= f) q :=
  fun hclosed => hf hclosed hclosed

theorem change {f : ImportTables → ImportTables} {p : ImportTables → PUnit → Prop}
    (hclosed : tables.Closed set start → (f tables).Closed set start)
    (hgrows : tables.Grows (f tables)) (h : p (f tables) ⟨⟩) :
    Keeps set start tables (modify f : Importing PUnit) p := by
  intro hbefore a tables' hrun
  cases hrun
  exact ⟨hclosed hbefore, hgrows, h⟩

/-- Rows may be added whose tokens name something. -/
theorem grow {f : ImportTables → ImportTables} {p : ImportTables → PUnit → Prop}
    (hsub : (f tables).substitution = tables.substitution) (hgrows : tables.Grows (f tables))
    (htypes : ∀ r ∈ (f tables).typeRefs, r ∈ tables.typeRefs ∨ tables.Leads start r.scope)
    (hmembers : (f tables).memberRefs = tables.memberRefs ∨
      ∃ r, (f tables).memberRefs = tables.memberRefs ++ [r] ∧
        ∀ t ∈ r.parent :: r.signature.tokens, tables.Names start t) (h : p (f tables) ⟨⟩) :
    Keeps set start tables (modify f : Importing PUnit) p :=
  change (fun hclosed => hclosed.grow hgrows hsub htypes hmembers) hgrows h

theorem forM {f : β → Importing PUnit} {xs : List β}
    (hf : ∀ x ∈ xs, ∀ tables, Keeps set start tables (f x) fun _ _ => True) :
    Keeps set start tables (xs.forM f) fun _ _ => True := by
  induction xs generalizing tables with
  | nil => exact pure trivial
  | cons x xs ih =>
    exact (hf x List.mem_cons_self tables).bind fun _ tables' _ _ =>
      ih fun y hy => hf y (List.mem_cons_of_mem _ hy)

/-- Each of the answers has a property that growing does not take away. -/
theorem mapM {f : γ → Importing α} {xs : List γ}
    (hgrows : ∀ a tables tables', tables.Grows tables' → p tables a → p tables' a)
    (hf : ∀ x ∈ xs, ∀ tables, Keeps set start tables (f x) p) :
    Keeps set start tables (xs.mapM f) fun tables' as => ∀ a ∈ as, p tables' a := by
  induction xs generalizing tables with
  | nil => exact pure nofun
  | cons x xs ih =>
    rw [List.mapM_cons]
    refine (hf x List.mem_cons_self tables).bind fun a tables' _ ha => ?_
    refine (ih fun y hy => hf y (List.mem_cons_of_mem _ hy)).bind fun as tables'' hgrow has => ?_
    exact pure (List.forall_mem_cons.2 ⟨hgrows a _ _ hgrow ha, has⟩)

end Keeps

end Importing

end ModuleLinker
