import ModuleLinker.Proofs.Relocation.Closed
import ModuleLinker.Proofs.Relocation.Wiring

namespace ModuleLinker

/-! # Imported references to types

Importing a reference to a type binds it. It can fail, and there are two reasons: an input leaves a
reference unresolved, or the inputs have more references than a table has rows.
-/

namespace Relocation

/-- The references of the inputs can be bound: they lead to types that are declared, and a reference to
a member finds it or leaves the inputs. Where it stays a reference, it uses no later one. -/
structure Resolvable (l : Linkage) (plan : Plan) : Prop where
  numbered : l.set.WellNumbered
  alone : l.set.attributeSource = none
  closed : ∀ m ∈ l.set.inputs, m.IsClosed
  chains : ∀ m ∈ l.set.inputs, ∀ row ∈ m.typeRefs, ∃ n root name, Chain m.typeRefs n row root name
  declared : ∀ source m, l.set.inputs[source]? = some m → ∀ row ∈ m.typeRefs, ∀ n root name,
    Chain m.typeRefs n row root name → ∀ input,
      Importing.inputOf? l source (root.bind (m.references[·]?)) = some input →
        ∃ target type, l.set.inputs[input]? = some target ∧ target.findTypeNamed? name = some type
  members : ∀ source m, l.set.inputs[source]? = some m → ∀ r ∈ m.memberRefs,
    Importing.memberSearch l source r ≠ .missing
  ordered : ∀ source m, l.set.inputs[source]? = some m → ∀ before r after,
    m.memberRefs = before ++ r :: after → Importing.memberSearch l source r = .outside →
      ∀ t ∈ r.parent :: r.signature.tokens, t ∉ (r :: after).map MemberRef.token
  planned : ∀ p ∈ plan.attributes, ∃ m a, l.set.source? (p.source.number l.set) = some m ∧
    m.attributes[p.index]? = some a

/-- What may stop an import: a reference without a counterpart, and where all references can be bound,
only a table that the inputs have too many tokens for. -/
def Excused (l : Linkage) (plan : Plan) (fault : Fault) : Prop :=
  ∃ cause, fault = .unbound cause ∧ (Resolvable l plan →
    ∃ table, cause = .tableFull table ∧ Token.maxRow.toNat < l.set.rowsOf table)

theorem Excused.of_not {l : Linkage} {plan : Plan} {cause : Unbound} (h : ¬ Resolvable l plan) :
    Excused l plan (.unbound cause) :=
  ⟨cause, rfl, fun hall => absurd hall h⟩

end Relocation

namespace ImportTables

/-! ## Tables after a step -/

/-- The tables after a step: wired as before, with more in them, and with rows that are counted. -/
structure After (l : Linkage) (changed : SourceToken → Prop) (types members : Nat)
    (tables tables' : ImportTables) : Prop where
  wired : tables'.Wired l
  counted : tables'.Counted l types members
  step : Step l.set changed tables tables'

namespace After

variable {l : Linkage} {p q : SourceToken → Prop} {types members types' members' : Nat}
  {tables tables' tables'' : ImportTables}

theorem refl (hwired : tables.Wired l) (hcounted : tables.Counted l types members) :
    After l p types members tables tables :=
  ⟨hwired, hcounted, .refl _ _ _⟩

theorem trans (h : After l p types members tables tables')
    (h' : After l p types' members' tables' tables'') : After l p types' members' tables tables'' :=
  ⟨h'.wired, h'.counted, h.step.trans h'.step⟩

theorem mono (h : After l p types members tables tables') (hpq : ∀ k, p k → q k) :
    After l q types members tables tables' :=
  ⟨h.wired, h.counted, h.step.mono hpq⟩

end After

/-- Adding to the tables without setting counterparts leaves the numbers of them. -/
theorem knownOf_unchanged {set : ModuleSet} {tables tables' : ImportTables}
    (h : Step set (fun _ => False) tables tables') (keys : List SourceToken) :
    tables'.knownOf keys = tables.knownOf keys := by
  rw [knownOf, knownOf]
  exact List.countP_congr fun k _ => by rw [h.unchanged k id]

theorem Counted.weaken {l : Linkage} {tables : ImportTables} {types members : Nat}
    (h : tables.Counted l types members) : tables.Counted l (types + 1) members :=
  fun halone => ⟨Nat.le_succ_of_le (h halone).1, (h halone).2⟩

/-- An unknown reference leaves room for the row of a type. -/
theorem Counted.typeRefs_lt {l : Linkage} {tables : ImportTables} {k : SourceToken} {members : Nat}
    (h : tables.Counted l 0 members) (hset : l.set.WellNumbered) (halone : l.set.attributeSource = none)
    (hk : k ∈ l.set.typeRefKeys) (hnone : tables.substitution.get? k = none) :
    tables.typeRefs.length < l.set.rowsOf Table.typeRef :=
  calc tables.typeRefs.length ≤ tables.knownOf l.set.typeRefKeys := (h halone).1
    _ < l.set.typeRefKeys.length := knownOf_lt_length hk hnone
    _ ≤ l.set.rowsOf Table.typeRef := hset.length_typeRefKeys_le

theorem Counted.memberRefs_lt {l : Linkage} {tables : ImportTables} {k : SourceToken} {types : Nat}
    (h : tables.Counted l types 0) (hset : l.set.WellNumbered) (halone : l.set.attributeSource = none)
    (hk : k ∈ l.set.memberRefKeys) (hnone : tables.substitution.get? k = none) :
    tables.memberRefs.length < l.set.rowsOf Table.memberRef :=
  calc tables.memberRefs.length ≤ tables.knownOf l.set.memberRefKeys := (h halone).2
    _ < l.set.memberRefKeys.length := knownOf_lt_length hk hnone
    _ ≤ l.set.rowsOf Table.memberRef := hset.length_memberRefKeys_le

end ImportTables

namespace Importing

open ImportTables Relocation

variable {l : Linkage} {plan : Plan} {tables : ImportTables} {source : Nat} {m : Module}

/-! ## Rows for types -/

theorem fresh_ends {table : UInt8} {fails : Fault → Prop}
    (hfull : ∀ fault a, tables.allocator.next table = (.error fault, a) → fails fault) :
    Ends tables (fresh table) (fun tables' t => ∃ a, tables.allocator.next table = (.ok t, a) ∧
      tables' = { tables with allocator := a }) fails := by
  refine .get ?_
  split
  case h_1 token a hnext =>
    refine .bind (p := fun tables' _ => tables' = { tables with allocator := a }) (.set rfl) ?_
    exact fun _ _ h => .pure ⟨a, hnext, h⟩
  case h_2 fault a hnext => exact .throw (hfull fault a hnext)

/-- A row for a type is found or added. It may be the first one of a module that has just been added to
the references. -/
theorem typeRefRow_ends (hwired : tables.Wired l) (hcounted : tables.Counted l 0 0)
    {references : List Identity} (hstart : tables.references <+: references)
    (hlength : references.length ≤ tables.references.length + 1) {scope : Scope}
    (hscope : ∀ index, scope = .reference index → index.toNat < references.length)
    (hleads : l.set.attributeSource = none → LeadsOn l.set tables.references tables.typeRefs references scope)
    (hfound : ∀ row ∈ tables.typeRefs, row.scope = scope → references = tables.references)
    (hroom : Resolvable l plan → tables.typeRefs.length < l.set.rowsOf Table.typeRef)
    (namespaceName name : String) :
    Ends { tables with references } (typeRefRow scope namespaceName name) (fun tables' new =>
      After l (fun _ => False) 1 0 tables tables' ∧ tables'.references = references ∧
        ⟨new, scope, namespaceName, name⟩ ∈ tables'.typeRefs) (Excused l plan) := by
  refine .get ?_
  dsimp only
  split
  case h_1 row hrow =>
    have hmem := List.mem_of_find?_eq_some hrow
    have hsame := List.find?_some hrow
    simp only [Bool.and_eq_true, beq_iff_eq] at hsame
    obtain ⟨⟨hsame, rfl⟩, rfl⟩ := hsame
    obtain rfl := hfound row hmem hsame
    exact .pure ⟨⟨hwired, hcounted.weaken, .refl _ _ _⟩, rfl, hsame ▸ hmem⟩
  case h_2 hnone =>
    refine (fresh_ends fun fault a hfull => ?_).bind fun token tables' h => ?_
    · obtain ⟨rfl, hmax⟩ := hwired.typeRows.full hfull
      rw [List.length_map] at hmax
      exact ⟨_, rfl, fun hall => ⟨_, rfl, Nat.lt_of_le_of_lt hmax (hroom hall)⟩⟩
    · obtain ⟨a, hnext, rfl⟩ := h
      have hnew : ∀ r ∈ tables.typeRefs, r.said ≠ (scope, namespaceName, name) := by
        intro r hr hsaid
        obtain ⟨rfl, hrest⟩ := Prod.mk.inj hsaid
        obtain ⟨rfl, rfl⟩ := Prod.mk.inj hrest
        exact List.find?_eq_none.1 hnone r hr (by simp)
      have hadded := hwired.addTypeRef hstart hlength ⟨token, scope, namespaceName, name⟩ hnext hscope hleads
        hnew
      refine .bind (p := fun tables' _ => tables' = tables.addTypeRef references a
        ⟨token, scope, namespaceName, name⟩) (.change rfl) ?_
      rintro _ _ rfl
      refine .pure ⟨⟨hadded.1, fun halone => ?_, hadded.2⟩, rfl, ?_⟩
      · rw [knownOf_unchanged hadded.2, knownOf_unchanged hadded.2]
        refine ⟨?_, (hcounted halone).2⟩
        rw [addTypeRef, List.length_append]
        exact Nat.succ_le_succ (hcounted halone).1
      · exact List.mem_append_right _ (List.mem_singleton.2 rfl)

/-- The index that a module is referred to by: that of one that agrees with it, or the next one. -/
theorem reference_ends (hrows : tables.allocator.HandedOut Table.typeRef (tables.typeRefs.map TypeRef.token))
    (hcount : tables.references.length ≤ tables.typeRefs.length) (identity : Identity)
    {fails : Fault → Prop} :
    Ends tables (reference identity) (fun tables' index => ∃ references,
      tables' = { tables with references } ∧ tables.references <+: references ∧
        references.length ≤ tables.references.length + 1 ∧
        (references = tables.references ∨ index.toNat = tables.references.length ∧
          references = tables.references ++ [identity] ∧
          ∀ other ∈ tables.references, other.agrees identity = false) ∧
        ∃ other, references[index.toNat]? = some other ∧ other.agrees identity) fails := by
  -- there are no more referenced modules than rows for types, so that indices do not wrap around
  have hwraps : tables.references.length < 2 ^ 32 := by
    have hroom := hrows.inOrder.room
    have hmax : Token.maxRow.toNat = 2 ^ 24 - 1 := rfl
    rw [List.length_map] at hroom
    omega
  refine .get ?_
  dsimp only
  split
  case h_1 index hindex =>
    obtain ⟨hlt, hagrees, -⟩ := List.findIdx?_eq_some_iff_getElem.1 hindex
    have hsame : (UInt32.ofNat index).toNat = index := UInt32.toNat_ofNat_of_lt' (Nat.lt_trans hlt hwraps)
    refine .pure ⟨_, rfl, List.prefix_refl _, Nat.le_succ _, .inl rfl, _, ?_, hagrees⟩
    rw [hsame, List.getElem?_eq_getElem hlt]
  case h_2 hnone =>
    have hsame : (UInt32.ofNat tables.references.length).toNat = tables.references.length :=
      UInt32.toNat_ofNat_of_lt' hwraps
    refine .bind (p := fun tables' _ =>
      tables' = { tables with references := tables.references ++ [identity] }) (.change rfl) ?_
    rintro _ _ rfl
    refine .pure ⟨_, rfl, List.prefix_append _ _, ?_,
      .inr ⟨hsame, rfl, List.findIdx?_eq_none_iff.1 hnone⟩, identity, ?_, ?_⟩
    · rw [List.length_append, List.length_singleton]
    · rw [hsame, List.getElem?_concat_length]
    · simp [Identity.agrees]

/-- A row for a top-level type of another module. -/
theorem referenceRow_ends (hwired : tables.Wired l) (hcounted : tables.Counted l 0 0)
    (hroom : Resolvable l plan → tables.typeRefs.length < l.set.rowsOf Table.typeRef)
    {identity : Identity} (hforeign : l.set.attributeSource = none → l.set.inputIndex? identity.name = none)
    (namespaceName name : String) :
    Ends tables (do typeRefRow (.reference (← reference identity)) namespaceName name)
      (fun tables' new => After l (fun _ => False) 1 0 tables tables' ∧
        ∃ index other, ⟨new, .reference index, namespaceName, name⟩ ∈ tables'.typeRefs ∧
          tables'.references[index.toNat]? = some other ∧ other.agrees identity) (Excused l plan) := by
  refine (reference_ends hwired.typeRows hwired.references identity).bind ?_
  rintro index _ ⟨references, rfl, hstart, hlength, hfresh, other, hother, hagrees⟩
  have hindex := (List.getElem?_eq_some_iff.1 hother).1
  refine (typeRefRow_ends hwired hcounted hstart hlength ?_ ?_ ?_ hroom namespaceName name).mono ?_
  · rintro _ ⟨⟩
    exact hindex
  · intro halone
    rcases hfresh with rfl | ⟨hnext, rfl, hnew⟩
    · exact .known hindex
    · exact .added hnext hnew (hforeign halone)
  · -- a row that is there refers to a module that is there
    intro row hrow hscope
    rcases hfresh with hold | ⟨hnext, -⟩
    · exact hold
    · exact absurd (hwired.scopes row hrow index hscope) (by omega)
  · rintro new tables' ⟨hafter, hreferences, hrow⟩
    exact ⟨hafter, index, other, hrow, hreferences ▸ hother, hagrees⟩

/-- A row for a nested type. -/
theorem enclosingRow_ends (hwired : tables.Wired l) (hcounted : tables.Counted l 0 0)
    (hroom : Resolvable l plan → tables.typeRefs.length < l.set.rowsOf Table.typeRef)
    {outer : Token} (houter : l.set.attributeSource = none → ∃ row ∈ tables.typeRefs, row.token = outer)
    (namespaceName name : String) :
    Ends tables (typeRefRow (.enclosing outer) namespaceName name)
      (fun tables' new => After l (fun _ => False) 1 0 tables tables' ∧
        ⟨new, .enclosing outer, namespaceName, name⟩ ∈ tables'.typeRefs) (Excused l plan) := by
  refine (typeRefRow_ends hwired hcounted (List.prefix_refl _) (Nat.le_succ _) (by rintro _ ⟨⟩) ?_
    (fun _ _ _ => rfl) hroom namespaceName name).mono fun _ _ ⟨hafter, _, hrow⟩ => ⟨hafter, hrow⟩
  intro halone
  obtain ⟨row, hrow, rfl⟩ := houter halone
  exact .nested hrow

/-! ## Definitions -/

theorem module_ends (h : l.set.source? source = some m) {fails : Fault → Prop} :
    Ends tables (module l source) (fun tables' m' => tables = tables' ∧ m = m') fails := by
  unfold module
  rw [h]
  exact .pure ⟨rfl, rfl⟩

/-- A type of an input has its counterpart from the start on. -/
theorem definition_ends (hwired : tables.Wired l) {input : Nat} (hinput : l.set.isInput input)
    {fullName : String} (hdeclared : Resolvable l plan → ∃ target type,
      l.set.inputs[input]? = some target ∧ target.findTypeNamed? fullName = some type) :
    Ends tables (definition l input fullName) (fun tables' new => tables' = tables ∧
      ∃ target type, l.set.inputs[input]? = some target ∧ target.findTypeNamed? fullName = some type ∧
        tables.substitution.get? ⟨input, type.token⟩ = some new) (Excused l plan) := by
  obtain ⟨target, htarget⟩ := ModuleSet.exists_of_isInput hinput
  refine (module_ends (ModuleSet.source?_of_getElem? htarget)).bind ?_
  rintro _ _ ⟨rfl, rfl⟩
  split
  case h_1 hnone =>
    refine .throw (.of_not fun hall => ?_)
    obtain ⟨target', type, htarget', htype⟩ := hdeclared hall
    obtain rfl := Option.some.inj (htarget.symm.trans htarget')
    exact nomatch hnone.symm.trans htype
  case h_2 type htype =>
    obtain ⟨new, hnew⟩ := hwired.declared ⟨input, type⟩
      ⟨target, htarget, Module.mem_allTypes_of_findTypeNamed? htype⟩
    refine .get ?_
    rw [hnew]
    exact .pure ⟨rfl, target, type, htarget, htype, hnew⟩

/-! ## Types of the module that attributes are taken from

That there is such a module excuses every fault.
-/

theorem counted_of_source (h : l.set.attributeSource ≠ none) {types members : Nat} :
    tables.Counted l types members :=
  fun halone => absurd halone h

theorem not_resolvable (h : l.set.attributeSource ≠ none) : ¬ Resolvable l plan :=
  fun hall => absurd hall.alone h

theorem enclosedRows_ends (hsource : l.set.attributeSource ≠ none) (hwired : tables.Wired l)
    (outer : Token) (names : List String) :
    Ends tables (enclosedRows outer names)
      (fun tables' _ => After l (fun _ => False) 0 0 tables tables') (Excused l plan) := by
  induction names generalizing tables outer with
  | nil => exact .pure (.refl hwired (counted_of_source hsource))
  | cons name rest ih =>
    have hroom : Resolvable l plan → tables.typeRefs.length < l.set.rowsOf Table.typeRef :=
      fun hall => absurd hall (not_resolvable hsource)
    refine (enclosingRow_ends hwired (counted_of_source hsource) hroom (fun halone => absurd halone hsource)
      "" name).bind ?_
    rintro token tables' ⟨hafter, -⟩
    exact (ih hafter.wired token).mono fun _ _ hrest => hafter.trans hrest

theorem attributeType_ends (hsource : l.set.attributeSource ≠ none) (hwired : tables.Wired l)
    (fullName : String) : Ends tables (attributeType l fullName)
      (fun tables' _ => After l (fun _ => False) 0 0 tables tables') (Excused l plan) := by
  have hall : ¬ Resolvable l plan := not_resolvable hsource
  obtain ⟨loaded, hloaded⟩ := Option.ne_none_iff_exists'.1 hsource
  have hm : l.set.source? l.set.inputs.length = some loaded.module := by
    rw [ModuleSet.source?, List.getElem?_eq_none (Nat.le_refl _), hloaded]
    rfl
  refine (module_ends hm).bind ?_
  rintro _ _ ⟨rfl, rfl⟩
  split
  case h_1 input hinput =>
    refine (definition_ends hwired (ModuleSet.isInput_of_inputIndex? hinput)
      fun h => absurd h hall).mono ?_
    rintro _ _ ⟨rfl, -⟩
    exact .refl hwired (counted_of_source hsource)
  case h_2 =>
    have hroom : Resolvable l plan → tables.typeRefs.length < l.set.rowsOf Table.typeRef :=
      fun h => absurd h hall
    obtain ⟨outer, inner, hparts⟩ := List.exists_cons_of_ne_nil (Text.split_ne_nil (· == '/') fullName)
    rw [hparts]
    dsimp only
    rw [← bind_assoc]
    refine (referenceRow_ends hwired (counted_of_source hsource) hroom (fun halone => absurd halone hsource)
      _ _).bind ?_
    rintro token tables' ⟨hafter, -⟩
    exact (enclosedRows_ends hsource hafter.wired token inner).mono fun _ _ hrest => hafter.trans hrest

/-! ## References of the inputs -/

/-- A row that is nested in one that refers to a type refers to the nested type. -/
theorem refers_nested (hwired : tables.Wired l) {identity : Identity} {outerName name : String}
    {outer new : Token} (houter : tables.Refers outerName identity outer)
    {namespaceName : String} (hrow : ⟨new, .enclosing outer, namespaceName, name⟩ ∈ tables.typeRefs) :
    tables.Refers s!"{outerName}/{name}" identity new := by
  obtain ⟨outerRow, hmem, rfl, n, index, other, hchain, hother, hagrees⟩ := houter
  -- a row that encloses itself would not lead to another module
  have hne : outerRow.token ≠ new := by
    intro htoken
    have hsame := List.inj_on_of_nodup_map hwired.typeRows.nodup hmem hrow htoken
    have hself : outerRow.scope = .enclosing outerRow.token := congrArg TypeRef.scope hsame
    cases hchain with
    | reference hscope => exact nomatch hself.symm.trans hscope
    | nested hscope hne => exact hne (Scope.enclosing.inj (hself.symm.trans hscope)).symm
  exact ⟨_, hrow, rfl, n + 1, index, other, .nested rfl hne hmem hchain, hother, hagrees⟩

/-- The tokens of the references of a module with chains of at most this length. -/
def ChainedWithin (rows : List TypeRef) (source n : Nat) (k : SourceToken) : Prop :=
  k.source = source ∧ ∃ row ∈ rows, row.token = k.token ∧ ∃ a ≤ n, ∃ root name, Chain rows a row root name

/-- The row of a reference has a chain of one length only, so that it is not among shorter ones. -/
theorem not_chainedWithin (source : Nat) {rows : List TypeRef} (hnodup : (rows.map TypeRef.token).Nodup) {row : TypeRef}
    (hrow : row ∈ rows) {n a : Nat} (hlt : a < n) {root : Option Nat} {name : String}
    (hchain : Chain rows n row root name) : ¬ ChainedWithin rows source a ⟨source, row.token⟩ := by
  rintro ⟨-, row', hrow', htoken, b, hb, root', name', hchain'⟩
  obtain rfl := List.inj_on_of_nodup_map hnodup hrow' hrow htoken
  have hlength := (hchain.unique hnodup hchain').1
  omega

/-- A reference that leads out of the inputs is bound to a row. -/
theorem refers_of_bindsType (hnodup : (m.typeRefs.map TypeRef.token).Nodup) {row : TypeRef} {n : Nat}
    {root : Option Nat} {name : String} (hchain : Chain m.typeRefs n row root name) {identity : Identity}
    (hidentity : root.bind (m.references[·]?) = some identity)
    (hinput : inputOf? l source (some identity) = none) {new : Token}
    (h : BindsType l tables source m row new) : tables.Refers name identity new := by
  cases h with
  | definition hchain' hinput' =>
    obtain ⟨-, rfl, -⟩ := hchain.unique hnodup hchain'
    rw [hidentity, hinput] at hinput'
    exact nomatch hinput'
  | reference hchain' hidentity' _ hrow =>
    obtain ⟨-, rfl, rfl⟩ := hchain.unique hnodup hchain'
    obtain rfl := Option.some.inj (hidentity.symm.trans hidentity')
    exact hrow

/-- What a reference is bound to becomes its counterpart, unless it has one. -/
theorem keepType_ends (hset : l.set.Identified) (hm : l.set.inputs[source]? = some m) {row : TypeRef}
    (hrow : row ∈ m.typeRefs) {n : Nat} {root : Option Nat} {name : String}
    (hchain : Chain m.typeRefs n row root name)
    (hnone : tables.substitution.get? ⟨source, row.token⟩ = none) {a : Nat} (ha : a < n)
    {tables' : ImportTables} (hafter : After l (ChainedWithin m.typeRefs source a) 1 0 tables tables')
    {new : Token} (hbinds : BindsType l tables' source m row new) {fails : Fault → Prop} :
    Ends tables' (do keep ⟨source, row.token⟩ new; return new) (fun tables'' new' =>
      After l (ChainedWithin m.typeRefs source n) 0 0 tables tables'' ∧
        tables''.substitution.get? ⟨source, row.token⟩ = some new') fails := by
  have hidentified := hset m (List.mem_of_getElem? hm)
  have hnodup := hidentified.nodup_typeRefs
  have hkey : ⟨source, row.token⟩ ∈ l.set.typeRefKeys :=
    ModuleSet.mem_sourced.2 ⟨m, hm, List.mem_map_of_mem hrow⟩
  have hnone' := (hafter.step.unchanged _ (not_chainedWithin source hnodup hrow ha hchain)).trans hnone
  have hkept := hafter.wired.keep ⟨source, row.token⟩ new ?_
  · refine .bind (p := fun tables'' _ => tables'' = tables'.keep ⟨source, row.token⟩ new) (.change rfl) ?_
    rintro _ _ rfl
    refine .pure ⟨(hafter.mono ?_).trans ⟨hkept.1, hafter.counted.keepType hkey hnone' new,
      hkept.2.mono ?_⟩, Substitution.get?_insert_self _ _ _⟩
    · rintro k ⟨hsource, row', hrow', htoken, b, hb, hchain'⟩
      exact ⟨hsource, row', hrow', htoken, b, Nat.le_trans hb (Nat.le_of_lt ha), hchain'⟩
    · rintro _ rfl
      exact ⟨rfl, row, hrow, rfl, n, Nat.le_refl n, root, name, hchain⟩
  · intro m' hm'
    obtain rfl := Option.some.inj (hm.symm.trans hm')
    refine ⟨hnone', hidentified.unshared_typeRef hrow, fun row' hrow' htoken => ?_, fun r hr htoken => ?_⟩
    · rwa [List.inj_on_of_nodup_map hnodup hrow' hrow htoken]
    · -- a reference to a member has another token
      have hmem : r.token ∈ m.typeRefs.map TypeRef.token := htoken ▸ List.mem_map_of_mem hrow
      exact absurd (List.mem_append_right _ hmem) (hidentified.memberRef_ne hr)

/-- A reference to a type is bound if the reference around it is. -/
theorem typeRefFrom_ends (hset : l.set.Identified) (hm : l.set.inputs[source]? = some m) {row : TypeRef}
    (hrow : row ∈ m.typeRefs) {n : Nat} {root : Option Nat} {name : String}
    (hchain : Chain m.typeRefs n row root name) {enclosing : Option (Token → Importing Token)}
    (henclosing : ∀ a outer outerName, n = a + 1 → outer ∈ m.typeRefs →
      Chain m.typeRefs a outer root outerName → ∃ f, enclosing = some f ∧
        Ends tables (f outer.token) (fun tables' new =>
          After l (ChainedWithin m.typeRefs source a) 0 0 tables tables' ∧
            tables'.substitution.get? ⟨source, outer.token⟩ = some new) (Excused l plan))
    (hwired : tables.Wired l) (hcounted : tables.Counted l 0 0) :
    Ends tables (typeRefFrom l source enclosing row.token) (fun tables' new =>
      After l (ChainedWithin m.typeRefs source n) 0 0 tables tables' ∧
        tables'.substitution.get? ⟨source, row.token⟩ = some new) (Excused l plan) := by
  have hnodup := (hset m (List.mem_of_getElem? hm)).nodup_typeRefs
  refine .get ?_
  rcases hget : tables.substitution.get? ⟨source, row.token⟩ with _ | known
  case some => exact .pure ⟨.refl hwired hcounted, hget⟩
  refine (module_ends (ModuleSet.source?_of_getElem? hm)).bind ?_
  rintro _ _ ⟨rfl, rfl⟩
  rw [Module.typeRef?_of_mem hnodup hrow, Module.typeRefName?_of_chain hnodup hrow hchain,
    Module.typeRefTarget?_of_chain hnodup hrow hchain]
  dsimp only
  rcases hinput : inputOf? l source (root.bind (m.references[·]?)) with _ | input
  case some =>
    refine (definition_ends hwired (isInput_of_inputOf? hinput) fun hall =>
      hall.declared source m hm row hrow n root name hchain input hinput).bind ?_
    rintro new _ ⟨rfl, target, type, htarget, htype, hnew⟩
    exact keepType_ends hset hm hrow hchain hget hchain.pos ⟨hwired, hcounted.weaken, .refl _ _ _⟩
      (.definition hchain hinput htarget htype hnew)
  rcases hidentity : root.bind (m.references[·]?) with _ | identity
  case none =>
    -- the module itself is an input
    rw [hidentity, inputOf?, if_pos (ModuleSet.isInput_of_getElem? hm)] at hinput
    exact nomatch hinput
  rw [hidentity] at hinput
  have hroom : ∀ tables' : ImportTables, tables'.Counted l 0 0 →
      tables'.substitution.get? ⟨source, row.token⟩ = none → Resolvable l plan →
        tables'.typeRefs.length < l.set.rowsOf Table.typeRef :=
    fun tables' hcounted' hnone hall => hcounted'.typeRefs_lt hall.numbered hall.alone
      (ModuleSet.mem_sourced.2 ⟨m, hm, List.mem_map_of_mem hrow⟩) hnone
  cases hchain with
  | here | itself => exact nomatch hidentity
  | reference hscope =>
    have hindex : m.references[_]? = some identity := hidentity
    rw [hscope]
    dsimp only
    rw [hindex]
    dsimp only
    rw [← bind_assoc]
    refine (referenceRow_ends hwired hcounted (hroom _ hcounted hget) (fun _ => hinput) _ _).bind ?_
    rintro new tables' ⟨hafter, index, other, hmem, hother, hagrees⟩
    refine keepType_ends hset hm hrow (.reference hscope) hget Nat.zero_lt_one
      (hafter.mono fun _ => False.elim) (.reference (.reference hscope) hidentity hinput ?_)
    exact ⟨_, hmem, rfl, 1, _, other, .reference rfl, hother, hagrees⟩
  | nested hscope hne houter houterChain =>
    obtain ⟨f, rfl, hf⟩ := henclosing _ _ _ rfl houter houterChain
    rw [hscope]
    refine hf.bind ?_
    rintro outerNew tables' ⟨hafter, houterNew⟩
    have hrefers := refers_of_bindsType hnodup houterChain hidentity hinput
      (hafter.wired.typeRefs source m hm _ houter outerNew houterNew)
    have hchain := Chain.nested hscope hne houter houterChain
    have hshorter := not_chainedWithin source hnodup hrow (Nat.lt_succ_self _) hchain
    have hnone := (hafter.step.unchanged _ hshorter).trans hget
    have houterRow : ∃ outerRow ∈ tables'.typeRefs, outerRow.token = outerNew := by
      obtain ⟨outerRow, hmem, htoken, -⟩ := hrefers
      exact ⟨outerRow, hmem, htoken⟩
    refine (enclosingRow_ends hafter.wired hafter.counted (hroom _ hafter.counted hnone) (fun _ => houterRow)
      _ _).bind ?_
    rintro new tables'' ⟨hafter', hmem⟩
    refine keepType_ends hset hm hrow hchain hget (Nat.lt_succ_self _)
      (hafter.trans (hafter'.mono fun _ => False.elim)) (.reference hchain hidentity hinput ?_)
    exact refers_nested hafter'.wired (hafter'.step.refers hrefers) hmem

/-- The induction is on the steps that are left of the chain. -/
theorem typeRefWithin_ends (hset : l.set.Identified) (hm : l.set.inputs[source]? = some m)
    {row : TypeRef} (hrow : row ∈ m.typeRefs) {n : Nat} {root : Option Nat} {name : String}
    (hchain : Chain m.typeRefs n row root name) {steps : Nat} (hsteps : n ≤ steps + 1)
    (hwired : tables.Wired l) (hcounted : tables.Counted l 0 0) :
    Ends tables (typeRefWithin l source steps row.token) (fun tables' new =>
      After l (ChainedWithin m.typeRefs source n) 0 0 tables tables' ∧
        tables'.substitution.get? ⟨source, row.token⟩ = some new) (Excused l plan) := by
  induction steps generalizing row n name with
  | zero =>
    refine typeRefFrom_ends hset hm hrow hchain (fun a outer outerName hn _ houter => ?_) hwired hcounted
    have := houter.pos
    omega
  | succ steps ih =>
    refine typeRefFrom_ends hset hm hrow hchain (fun a outer outerName hn hmem houter => ?_) hwired hcounted
    exact ⟨_, rfl, ih hmem houter (by omega)⟩

/-! ## References of the module that attributes are taken from -/

theorem attributeSource_ne_none (hm : l.set.source? source = some m) (houtside : ¬ l.set.isInput source) :
    l.set.attributeSource ≠ none := by
  intro hnone
  have hlength : l.set.inputs.length ≤ source := by simpa [ModuleSet.isInput] using houtside
  rw [ModuleSet.source?, List.getElem?_eq_none hlength, hnone] at hm
  cases hm

/-- Its tokens get counterparts of their own, which no input sees. -/
theorem keepOutside_ends (hm : l.set.source? source = some m) (houtside : ¬ l.set.isInput source)
    {types : Nat} {tables' : ImportTables} (hafter : After l (·.source = source) types 0 tables tables')
    (token new : Token) {fails : Fault → Prop} : Ends tables' (do keep ⟨source, token⟩ new; return new)
      (fun tables'' _ => After l (·.source = source) 0 0 tables tables'') fails := by
  have hkept := hafter.wired.keep ⟨source, token⟩ new fun m' hm' =>
    absurd (ModuleSet.isInput_of_getElem? hm') houtside
  refine .bind (p := fun tables'' _ => tables'' = tables'.keep ⟨source, token⟩ new) (.change rfl) ?_
  rintro _ _ rfl
  refine .pure (hafter.trans ⟨hkept.1, ?_, hkept.2.mono ?_⟩)
  · exact counted_of_source (attributeSource_ne_none hm houtside)
  · rintro _ rfl
    rfl

theorem typeRefFrom_ends_outside (hm : l.set.source? source = some m)
    (houtside : ¬ l.set.isInput source) {enclosing : Option (Token → Importing Token)}
    (henclosing : ∀ f ∈ enclosing, ∀ t, Ends tables (f t) (fun tables' _ =>
      After l (·.source = source) 0 0 tables tables') (Excused l plan))
    (hwired : tables.Wired l) (token : Token) :
    Ends tables (typeRefFrom l source enclosing token) (fun tables' _ =>
      After l (·.source = source) 0 0 tables tables') (Excused l plan) := by
  have hsource := attributeSource_ne_none hm houtside
  have hall : ¬ Resolvable l plan := not_resolvable hsource
  have hcounted : tables.Counted l 0 0 := counted_of_source hsource
  refine .get ?_
  rcases tables.substitution.get? ⟨source, token⟩ with _ | known
  case some => exact .pure (.refl hwired hcounted)
  refine (module_ends hm).bind ?_
  rintro _ _ ⟨rfl, rfl⟩
  split
  case h_2 => exact .throw (.of_not hall)
  case h_1 row hrow =>
  split
  case h_2 => exact .throw (.of_not hall)
  dsimp only
  split
  case h_1 input hinput =>
    refine (definition_ends hwired (isInput_of_inputOf? hinput) fun h => absurd h hall).bind ?_
    rintro new _ ⟨rfl, -⟩
    exact keepOutside_ends hm houtside (.refl hwired hcounted) token new
  split
  case h_1 =>
    refine (attributeType_ends hsource hwired _).bind fun new tables' hafter => ?_
    exact keepOutside_ends hm houtside (hafter.mono fun _ => False.elim) token new
  case h_2 =>
    split
    case h_1 => exact .bind (p := fun _ _ => False) (.throw (.of_not hall)) fun _ _ => False.elim
    case h_2 identity _ =>
      rw [← bind_assoc]
      refine (referenceRow_ends hwired hcounted (fun h => absurd h hall)
        (fun halone => absurd halone hsource) _ _).bind ?_
      rintro new tables' ⟨hafter, -⟩
      exact keepOutside_ends hm houtside (hafter.mono fun _ => False.elim) token new
  case h_3 outer _ _ =>
    split
    case h_1 f =>
      refine (henclosing f rfl outer).bind fun outerNew tables' hafter => ?_
      refine (enclosingRow_ends hafter.wired hafter.counted (fun h => absurd h hall)
        (fun halone => absurd halone hsource) _ _).bind ?_
      rintro new tables'' ⟨hafter', -⟩
      exact keepOutside_ends hm houtside (hafter.trans (hafter'.mono fun _ => False.elim)) token new
    case h_2 => exact .bind (p := fun _ _ => False) (.throw (.of_not hall)) fun _ _ => False.elim
  case h_4 htarget hscope =>
    -- what is in the module itself does not lead to another one
    rw [Module.typeRefTarget?, hrow] at htarget
    rcases hlength : m.typeRefs.length with _ | steps <;>
      simp [hlength, Module.targetWithin, hscope] at htarget

theorem typeRefWithin_ends_outside (hm : l.set.source? source = some m)
    (houtside : ¬ l.set.isInput source) (steps : Nat) (hwired : tables.Wired l) (token : Token) :
    Ends tables (typeRefWithin l source steps token) (fun tables' _ =>
      After l (·.source = source) 0 0 tables tables') (Excused l plan) := by
  induction steps generalizing token with
  | zero =>
    refine typeRefFrom_ends_outside hm houtside ?_ hwired token
    rintro _ ⟨⟩
  | succ steps ih =>
    refine typeRefFrom_ends_outside hm houtside ?_ hwired token
    rintro _ ⟨⟩ t
    exact ih t

/-! ## Types -/

/-- What importing types of a module may change: in an input, counterparts of references to types. -/
def TypesOf (set : ModuleSet) (source : Nat) (k : SourceToken) : Prop :=
  k.source = source ∧ (set.isInput source → k ∈ set.typeRefKeys)

/-- A token that can be imported from an input: it means the same everywhere, has a counterpart, or is
that of a reference to a type. -/
def Importable (l : Linkage) (tables : ImportTables) (k : SourceToken) : Prop :=
  Substitution.isShared k.token ∨ (∃ new, tables.substitution.get? k = some new) ∨ k ∈ l.set.typeRefKeys

/-- A token without a full name has a counterpart from before or gets none. -/
theorem typeRefWithin_ends_unnamed (hm : l.set.source? source = some m) (hall : ¬ Resolvable l plan)
    {token : Token} (hname : m.typeRefName? token = none) (steps : Nat) :
    Ends tables (typeRefWithin l source steps token) (fun tables' new => tables = tables' ∧
      tables'.substitution.get? ⟨source, token⟩ = some new) (Excused l plan) := by
  have hfrom : ∀ enclosing, Ends tables (typeRefFrom l source enclosing token) (fun tables' new =>
      tables = tables' ∧ tables'.substitution.get? ⟨source, token⟩ = some new) (Excused l plan) := by
    intro enclosing
    refine .get ?_
    rcases hget : tables.substitution.get? ⟨source, token⟩ with _ | known
    case some => exact .pure ⟨rfl, hget⟩
    refine (module_ends hm).bind ?_
    rintro _ _ ⟨rfl, rfl⟩
    rw [hname]
    split
    case h_1 => exact .throw (.of_not hall)
    case h_2 => exact .throw (.of_not hall)
  cases steps with
  | zero => exact hfrom none
  | succ steps => exact hfrom _

theorem exists_row_of_mem_typeRefKeys (hm : l.set.source? source = some m) {token : Token}
    (hkey : ⟨source, token⟩ ∈ l.set.typeRefKeys) : ∃ row ∈ m.typeRefs, row.token = token := by
  obtain ⟨m', hm', hmem⟩ := ModuleSet.mem_sourced.1 hkey
  obtain rfl := Option.some.inj (hm.symm.trans (ModuleSet.source?_of_getElem? hm'))
  exact List.mem_map.1 hmem

theorem typeRef_ends (hset : l.set.Identified) (hm : l.set.source? source = some m)
    (hwired : tables.Wired l) (hcounted : tables.Counted l 0 0) {token : Token}
    (hnamed : Resolvable l plan → ∃ row ∈ m.typeRefs, row.token = token) :
    Ends tables (typeRef l source token) (fun tables' new =>
      After l (TypesOf l.set source) 0 0 tables tables' ∧ (l.set.isInput source →
        tables'.substitution.get? ⟨source, token⟩ = some new)) (Excused l plan) := by
  refine (module_ends hm).bind ?_
  rintro _ _ ⟨rfl, rfl⟩
  by_cases hinput : l.set.isInput source
  case neg =>
    refine (typeRefWithin_ends_outside hm hinput _ hwired token).mono fun _ _ hafter => ?_
    exact ⟨hafter.mono fun k hk => ⟨hk, fun h => absurd h hinput⟩, fun h => absurd h hinput⟩
  case pos =>
    have hm' := ModuleSet.getElem?_of_source? hm hinput
    have hmem := List.mem_of_getElem? hm'
    have hnodup := (hset m hmem).nodup_typeRefs
    rcases hname : m.typeRefName? token with _ | name
    · have hall : ¬ Resolvable l plan := by
        intro hall
        obtain ⟨row, hrow, rfl⟩ := hnamed hall
        obtain ⟨n, root, name, hchain⟩ := hall.chains m hmem row hrow
        exact nomatch hname.symm.trans (Module.typeRefName?_of_chain hnodup hrow hchain)
      refine (typeRefWithin_ends_unnamed hm hall hname _).mono ?_
      rintro new _ ⟨rfl, hnew⟩
      exact ⟨.refl hwired hcounted, fun _ => hnew⟩
    · obtain ⟨row, hfind, n, root, hchain⟩ := Module.exists_chain hname
      have hrow := List.mem_of_find?_eq_some hfind
      obtain rfl : row.token = token := by simpa using List.find?_some hfind
      have hlength := Nat.le_succ_of_le (hchain.length_le hnodup hrow)
      refine (typeRefWithin_ends hset hm' hrow hchain hlength hwired hcounted).mono ?_
      rintro new tables' ⟨hafter, hnew⟩
      refine ⟨hafter.mono ?_, fun _ => hnew⟩
      rintro k ⟨rfl, row', hrow', htoken, -⟩
      exact ⟨rfl, fun _ => ModuleSet.mem_sourced.2 ⟨m, hm', htoken ▸ List.mem_map_of_mem hrow'⟩⟩

/-- A token for a type gets the counterpart that it has from then on. -/
theorem type_ends (hset : l.set.Identified) (hm : l.set.source? source = some m)
    (hwired : tables.Wired l) (hcounted : tables.Counted l 0 0) {token : Token}
    (htoken : Resolvable l plan → Importable l tables ⟨source, token⟩) :
    Ends tables (type l source token) (fun tables' new =>
      After l (TypesOf l.set source) 0 0 tables tables' ∧ (l.set.isInput source →
        tables'.substitution.resolve source token = .ok new)) (Excused l plan) := by
  refine .get ?_
  rcases hget : tables.substitution.get? ⟨source, token⟩ with _ | known
  case some =>
    refine .pure ⟨.refl hwired hcounted, fun hinput => ?_⟩
    exact Substitution.resolve_of_get? (hwired.unshared _ _ hinput hget) hget
  dsimp only
  split
  case isTrue htable =>
    refine (typeRef_ends hset hm hwired hcounted fun hall => ?_).mono fun new tables' h => ?_
    · rcases htoken hall with hshared | ⟨new, hnew⟩ | hkey
      · rcases Substitution.table_of_isShared hshared with hzero | hstring
        · exact absurd (htable.symm.trans hzero) (by decide)
        · exact absurd (htable.symm.trans hstring) (by decide)
      · exact nomatch hget.symm.trans hnew
      · exact exists_row_of_mem_typeRefKeys hm hkey
    · refine ⟨h.1, fun hinput => ?_⟩
      exact Substitution.resolve_of_get? (h.1.wired.unshared _ _ hinput (h.2 hinput)) (h.2 hinput)
  case isFalse hother =>
  split
  case isTrue houtside =>
    have hsource := attributeSource_ne_none hm houtside.2
    refine (module_ends hm).bind ?_
    rintro _ _ ⟨rfl, rfl⟩
    split
    case h_2 => exact .throw (.of_not (not_resolvable hsource))
    case h_1 fullName _ =>
      refine (attributeType_ends hsource hwired fullName).bind fun new tables' hafter => ?_
      refine (keepOutside_ends hm houtside.2 (hafter.mono fun _ => False.elim) token new).mono ?_
      intro _ tables'' hafter'
      exact ⟨hafter'.mono fun k hk => ⟨hk, fun h => absurd h houtside.2⟩, fun h => absurd h houtside.2⟩
  case isFalse =>
    refine .get ?_
    split
    case h_1 new hnew => exact .pure ⟨.refl hwired hcounted, fun _ => hnew⟩
    case h_2 fault hfault =>
      obtain ⟨rfl, hshared, -⟩ := Substitution.resolve_eq_error hfault
      refine .throw (.of_not fun hall => ?_)
      rcases htoken hall with hshared' | ⟨new, hnew⟩ | hkey
      · exact hshared hshared'
      · exact nomatch hget.symm.trans hnew
      · obtain ⟨m', hm', hmem⟩ := ModuleSet.mem_sourced.1 hkey
        obtain ⟨row, hrow, rfl⟩ := List.mem_map.1 hmem
        exact hother ((hall.numbered m' (List.mem_of_getElem? hm')).typeRefs row hrow)

end Importing

end ModuleLinker
