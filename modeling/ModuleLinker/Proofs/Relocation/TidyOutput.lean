import ModuleLinker.Plan.Build
import ModuleLinker.Proofs.Relocation.TidyRows
import ModuleLinker.Proofs.Relocation.WrittenOut
import ModuleLinker.Proofs.Renaming.Stepwise

namespace ModuleLinker

/-! # Imports in order and tidy output

Every operation of an import leaves tidy tables. Where it answers for a reference that leads out of the
inputs, the answer is the token of a row, which may then be the one around the row of a nested type.
-/

namespace Importing

open ImportTables

/-- From these tables on, `x` leaves tidy tables where it answers, and the property holds of them and of the
answer. -/
abbrev LeavesTidy (set : ModuleSet) (tables : ImportTables) (x : Importing α)
    (p : ImportTables → α → Prop) : Prop :=
  Ends tables x (fun tables' a => tables'.Tidy set ∧ p tables' a) fun _ => True

/-- The same, and the answer is the token of a row for a type. -/
abbrev LeavesRow (set : ModuleSet) (tables : ImportTables) (x : Importing Token) : Prop :=
  LeavesTidy set tables x fun tables' new => new ∈ tables'.typeRefs.map TypeRef.token

variable {set : ModuleSet} {l : Linkage} {tables : ImportTables} {source : Nat} {m : Module}

/-! ## Rows -/

theorem typeRefRow_tidy (h : tables.Tidy set) {references : List Identity} {scope : Scope}
    (hleads : LeadsFrom set tables references scope) (namespaceName name : String) :
    LeavesRow set { tables with references } (typeRefRow scope namespaceName name) := by
  refine .of_cases (fun token tables' hrun => ?_) fun _ _ _ => trivial
  rcases typeRefRow_eq_ok hrun with ⟨row, hfound, rfl, rfl⟩ | ⟨habsent, a, hnext, rfl⟩
  · have hmem := List.mem_of_find?_eq_some hfound
    have hsame := List.find?_some hfound
    simp only [Bool.and_eq_true, beq_iff_eq] at hsame
    rcases hleads.references_eq with rfl | ⟨identity, index, rfl, hscope, hindex, -⟩
    · exact ⟨h, List.mem_map_of_mem hmem⟩
    · -- a module that is new has no row yet
      have hbound := h.bounded row hmem index (hsame.1.1.trans hscope)
      omega
  · have hnew : ∀ r ∈ tables.typeRefs, r.said ≠ (scope, namespaceName, name) := by
      intro r hr hsaid
      obtain ⟨rfl, hrest⟩ := Prod.mk.inj hsaid
      obtain ⟨rfl, rfl⟩ := Prod.mk.inj hrest
      exact List.find?_eq_none.1 habsent r hr (by simp)
    refine ⟨h.addTypeRef ⟨token, scope, namespaceName, name⟩ hleads hnext hnew, ?_⟩
    exact List.mem_map_of_mem (List.mem_append_right _ List.mem_cons_self)

/-- A row for a top-level type of a module that is no input. -/
theorem referenceRow_tidy (h : tables.Tidy set) {identity : Identity}
    (hforeign : set.inputIndex? identity.name = none) (namespaceName name : String) :
    LeavesRow set tables (do typeRefRow (.reference (← reference identity)) namespaceName name) := by
  refine (reference_ends h.rows h.count identity).bind ?_
  rintro index _ ⟨references, rfl, -, -, hfresh, other, hother, -⟩
  refine typeRefRow_tidy h ?_ namespaceName name
  rcases hfresh with rfl | ⟨hindex, rfl, hnew⟩
  · exact .known (List.getElem?_eq_some_iff.1 hother).1
  · exact .added hindex hnew hforeign

theorem memberRefRow_tidy (h : tables.Tidy set) (parent : Token) (name : String) (signature : MemberSig) :
    LeavesTidy set tables (memberRefRow parent name signature) fun _ _ => True := by
  refine .of_cases (fun token tables' hrun => ⟨?_, trivial⟩) fun _ _ _ => trivial
  rcases memberRefRow_eq_ok hrun with ⟨row, -, -, rfl⟩ | ⟨-, a, hnext, rfl⟩
  · exact h
  · exact h.addMemberRef ⟨token, parent, name, signature⟩ hnext

/-- What has been found for a token becomes its counterpart. -/
theorem keep_tidy (h : tables.Tidy set) {k : SourceToken} {new : Token} (hnew : Rooted set k tables new) :
    LeavesTidy set tables (do keep k new; return new) (Rooted set k) := by
  refine .bind (p := fun tables' _ => tables' = tables.keep k new) (.change rfl) ?_
  rintro _ _ rfl
  exact .pure ⟨h.keep hnew, hnew⟩

/-! ## Types -/

theorem module_tidy (h : tables.Tidy set) (l : Linkage) (source : Nat) :
    LeavesTidy set tables (module l source) fun _ m => l.set.source? source = some m := by
  rcases hm : l.set.source? source with _ | m
  · unfold Importing.module
    rw [hm]
    exact .throw trivial
  · exact (module_ends hm).mono fun m' tables' ⟨htables, hm'⟩ => ⟨htables ▸ h, hm' ▸ rfl⟩

theorem definition_tidy (h : tables.Tidy set) (l : Linkage) (input : Nat) (fullName : String) :
    LeavesTidy set tables (definition l input fullName) fun _ _ => True := by
  refine (module_tidy h l input).bind fun m tables' h' => ?_
  split
  case h_1 => exact .throw trivial
  case h_2 type _ =>
    refine .get ?_
    rcases tables'.substitution.get? ⟨input, type.token⟩ with _ | new
    · exact .throw trivial
    · exact .pure ⟨h'.1, trivial⟩

theorem enclosedRows_tidy (h : tables.Tidy set) {outer : Token}
    (houter : outer ∈ tables.typeRefs.map TypeRef.token) (names : List String) :
    LeavesRow set tables (enclosedRows outer names) := by
  induction names generalizing tables outer with
  | nil => exact .pure ⟨h, houter⟩
  | cons name rest ih =>
    refine (typeRefRow_tidy h (.nested fun _ => houter) "" name).bind fun token tables' h' => ?_
    exact ih h'.1 h'.2

/-- A type of the module that attributes are taken from gets rows, if that is no input too. -/
theorem attributeType_tidy (h : tables.Tidy l.set) (fullName : String) :
    LeavesTidy l.set tables (attributeType l fullName) fun tables' new =>
      ∀ m, l.set.source? l.set.inputs.length = some m → l.set.inputIndex? m.name = none →
        new ∈ tables'.typeRefs.map TypeRef.token := by
  refine (module_tidy h l _).bind fun m tables' ⟨h', hm⟩ => ?_
  split
  case h_1 input hinput =>
    refine (definition_tidy h' l input fullName).mono fun new tables'' h'' => ⟨h''.1, ?_⟩
    intro m' hm' hforeign
    obtain rfl := Option.some.inj (hm.symm.trans hm')
    exact nomatch hinput.symm.trans hforeign
  case h_2 hforeign =>
    obtain ⟨outer, inner, hparts⟩ := List.exists_cons_of_ne_nil (Text.split_ne_nil (· == '/') fullName)
    rw [hparts]
    dsimp only
    rw [← bind_assoc]
    refine (referenceRow_tidy h' hforeign _ _).bind fun token tables'' h'' => ?_
    exact (enclosedRows_tidy h''.1 h''.2 inner).mono fun new _ hrow => ⟨hrow.1, fun _ _ _ => hrow.2⟩

/-! ## References to types -/

/-- What becomes of a reference if the references around it become rows where they lead out. -/
theorem typeRefFrom_tidy (h : tables.Tidy l.set) {enclosing : Option (Token → Importing Token)}
    (henclosing : ∀ f ∈ enclosing, ∀ tables, ImportTables.Tidy l.set tables → ∀ outer,
      LeavesTidy l.set tables (f outer) (Rooted l.set ⟨source, outer⟩)) (token : Token) :
    LeavesTidy l.set tables (typeRefFrom l source enclosing token) (Rooted l.set ⟨source, token⟩) := by
  refine .get ?_
  rcases hget : tables.substitution.get? ⟨source, token⟩ with _ | known
  case some => exact .pure ⟨h, h.rooted _ _ hget⟩
  refine (module_tidy h l source).bind fun m tables' ⟨h, hm⟩ => ?_
  split
  case h_2 => exact .throw trivial
  case h_1 row hrow =>
  split
  case h_2 => exact .throw trivial
  case h_1 fullName _ =>
  dsimp only
  split
  case h_1 input hinput =>
    refine (definition_tidy h l input fullName).bind fun new tables' h' => keep_tidy h'.1 fun _ hout => ?_
    obtain ⟨identity, htarget, hforeign⟩ := hout.target hm
    rw [htarget] at hinput
    exact nomatch hinput.symm.trans hforeign
  case h_2 hinput =>
  split
  case h_1 htarget =>
    refine (attributeType_tidy h fullName).bind fun new tables' h' => keep_tidy h'.1 fun _ hout => ?_
    obtain ⟨identity, htarget', -⟩ := hout.target hm
    exact nomatch htarget.symm.trans htarget'
  case h_2 target index htarget hscope =>
    split
    case h_1 => exact .bind (p := fun _ _ => False) (.throw trivial) fun _ _ => False.elim
    case h_2 identity hidentity =>
      rw [Module.typeRefTarget?_of_reference hrow hscope, hidentity] at hinput
      rw [← bind_assoc]
      refine (referenceRow_tidy h hinput _ _).bind fun new tables' h' => ?_
      exact keep_tidy h'.1 fun _ _ => h'.2
  case h_3 target outer htarget hscope =>
    split
    case h_2 => exact .bind (p := fun _ _ => False) (.throw trivial) fun _ _ => False.elim
    case h_1 f =>
      rw [htarget] at hinput
      -- the reference around leads out as well
      have hout : l.set.LeadsOut ⟨source, outer⟩ :=
        ⟨m, target, hm, Module.typeRefTarget?_of_enclosing hrow hscope htarget, hinput⟩
      refine (henclosing f rfl _ h outer).bind fun outerNew tables' h' => ?_
      refine (typeRefRow_tidy h'.1 (.nested fun htabled => h'.2 htabled hout) _ _).bind
        fun new tables'' h'' => ?_
      exact keep_tidy h''.1 fun _ _ => h''.2
  case h_4 htarget hscope =>
    rw [Module.typeRefTarget?_of_here hrow hscope] at htarget
    exact nomatch htarget

/-- The induction is on the steps that are left of the chain of enclosing references. -/
theorem typeRefWithin_tidy (h : tables.Tidy l.set) (steps : Nat) (token : Token) :
    LeavesTidy l.set tables (typeRefWithin l source steps token) (Rooted l.set ⟨source, token⟩) := by
  induction steps generalizing tables token with
  | zero =>
    refine typeRefFrom_tidy h ?_ token
    rintro _ ⟨⟩
  | succ steps ih =>
    refine typeRefFrom_tidy h ?_ token
    rintro _ ⟨⟩ tables' h' outer
    exact ih h' outer

theorem typeRef_tidy (h : tables.Tidy l.set) (token : Token) :
    LeavesTidy l.set tables (typeRef l source token) fun _ _ => True :=
  (module_tidy h l source).bind fun m _ h' =>
    (typeRefWithin_tidy h'.1 m.typeRefs.length token).mono fun _ _ hrun => ⟨hrun.1, trivial⟩

/-- A type of the module that attributes are taken from leads out as a reference only if it has rows. -/
theorem rooted_attributeType {token new : Token} (hm : l.set.source? source = some m)
    (houtside : ¬ l.set.isInput source) (htable : token.table = Table.typeDef)
    (hnew : ∀ m, l.set.source? l.set.inputs.length = some m → l.set.inputIndex? m.name = none →
      new ∈ tables.typeRefs.map TypeRef.token) : Rooted l.set ⟨source, token⟩ tables new := by
  intro htabled hout
  have hlength : l.set.inputs.length ≤ source := by simpa [ModuleSet.isInput] using houtside
  rw [ModuleSet.source?, List.getElem?_eq_none hlength, Option.none_or] at hm
  have hlast : l.set.source? l.set.inputs.length = some m := by
    rw [ModuleSet.source?, List.getElem?_eq_none (Nat.le_refl _), Option.none_or, hm]
  rcases hinput : l.set.inputIndex? m.name with _ | input
  · exact hnew m hlast hinput
  · -- the type would have to be looked up among those of the input
    obtain ⟨loaded, hloaded, rfl⟩ := Option.map_eq_some_iff.1 hm
    have hsource : l.set.source? source = some loaded.module := by
      rw [ModuleSet.source?, List.getElem?_eq_none hlength, Option.none_or, hm]
    obtain ⟨row, hrow, hsame⟩ := hout.exists_row hsource
    have hne := htabled loaded hloaded (by rw [hinput]; rfl) row hrow
    exact absurd (hsame ▸ htable) hne

theorem type_tidy (h : tables.Tidy l.set) (source : Nat) (token : Token) :
    LeavesTidy l.set tables (type l source token) fun _ _ => True := by
  refine .get ?_
  rcases tables.substitution.get? ⟨source, token⟩ with _ | known
  case some => exact .pure ⟨h, trivial⟩
  dsimp only
  split
  case isTrue => exact typeRef_tidy h token
  case isFalse =>
  split
  case isTrue houtside =>
    refine (module_tidy h l source).bind fun m tables' ⟨h', hm⟩ => ?_
    split
    case h_2 => exact .throw trivial
    case h_1 fullName _ =>
      refine (attributeType_tidy h' fullName).bind fun new tables'' h'' => ?_
      exact (keep_tidy h''.1 (rooted_attributeType hm houtside.2 houtside.1 h''.2)).mono
        fun _ _ hrun => ⟨hrun.1, trivial⟩
  case isFalse =>
    refine .get ?_
    split
    case h_1 => exact .pure ⟨h, trivial⟩
    case h_2 => exact .throw trivial

end Importing

namespace Importing

open ImportTables

variable {l : Linkage} {tables : ImportTables} {source : Nat} {m : Module}

/-! ## References to members -/

theorem externalMember_tidy (h : tables.Tidy l.set) (source : Nat) (r : MemberRef) :
    LeavesTidy l.set tables (externalMember l source r) fun _ _ => True := by
  refine (type_tidy h source r.parent).bind fun parent tables' h' => ?_
  have htype : ∀ t s, ImportTables.Tidy l.set s →
      Ends s (type l source t) (fun s' _ => s'.Tidy l.set) fun _ => True :=
    fun t s hs => (type_tidy hs source t).mono fun _ _ hrun => hrun.1
  refine (r.signature.mapTokens_holds htype h'.1).bind fun signature tables'' h'' => ?_
  exact memberRefRow_tidy h''.1 parent r.name signature

theorem mergedMember_tidy (h : tables.Tidy l.set) (source : Nat) (r : MemberRef) (fault : Unbound)
    (steps : Nat) (t : Nat × TypeDef) :
    LeavesTidy l.set tables (mergedMember l source r fault steps t) fun _ _ => True := by
  rw [mergedMember_eq]
  split
  case h_1 =>
    refine .get ?_
    split
    case h_1 => exact .pure ⟨h, trivial⟩
    case h_2 => exact .throw trivial
  case h_2 => exact externalMember_tidy h source r
  case h_3 => exact .throw trivial

theorem memberRef_tidy (h : tables.Tidy l.set) (hset : l.set.Identified)
    (hinput : l.set.isInput source) (token : Token) :
    LeavesTidy l.set tables (memberRef l source token) fun _ _ => True := by
  refine .get ?_
  rcases tables.substitution.get? ⟨source, token⟩ with _ | known
  case some => exact .pure ⟨h, trivial⟩
  refine (module_tidy h l source).bind fun m tables' ⟨h, hm⟩ => ?_
  split
  case h_2 => exact .throw trivial
  case h_1 row hrow =>
  have hkeep : ∀ new tables', ImportTables.Tidy l.set tables' ∧ True →
      LeavesTidy l.set tables' (do keep ⟨source, token⟩ new; return new) fun _ _ => True := by
    refine fun new tables' h' => (keep_tidy h'.1 fun _ hout => ?_).mono fun _ _ hrun => ⟨hrun.1, trivial⟩
    have hm' := ModuleSet.getElem?_of_source? hm hinput
    exact absurd hout (ModuleSet.not_leadsOut_memberRef (k := ⟨source, token⟩) hset hm' hrow)
  dsimp only
  split
  case h_1 => exact (mergedMember_tidy h source row _ _ _).bind hkeep
  case h_2 => exact (externalMember_tidy h source row).bind hkeep

end Importing

/-! ## All references -/

namespace Relocation

open Importing ImportTables

variable {l : Linkage} {tables : ImportTables} {source : Nat} {m : Module}

theorem importModule_tidy (h : tables.Tidy l.set) (hset : l.set.Identified)
    (hm : l.set.inputs[source]? = some m) :
    Ends tables (importModule l source m) (fun tables' _ => tables'.Tidy l.set) fun _ => True := by
  have hinput := ModuleSet.isInput_of_getElem? hm
  refine (Ends.forM (motive := fun _ s => ImportTables.Tidy l.set s) h fun _ row _ _ s hs => ?_).bind
    fun _ tables' h' => .forM (motive := fun _ s => ImportTables.Tidy l.set s) h' fun _ r _ _ s hs => ?_
  · exact (typeRef_tidy hs row.token).bind fun _ _ hrun => .pure hrun.1
  · exact (memberRef_tidy hs hset hinput r.token).bind fun _ _ hrun => .pure hrun.1

theorem importAttribute_tidy (h : tables.Tidy l.set) (planned : PlannedAttribute) :
    Ends tables (importAttribute l planned) (fun tables' _ => tables'.Tidy l.set) fun _ => True := by
  refine (module_tidy h l _).bind fun m tables' ⟨h', _⟩ => ?_
  split
  case h_1 => exact .throw trivial
  case h_2 a _ => exact (type_tidy h' _ a.type).bind fun _ _ hrun => .pure hrun.1

/-- Importing all references leaves tidy tables. -/
theorem importAll_tidy (h : tables.Tidy l.set) (hset : l.set.Identified) (plan : Plan) :
    Ends tables (importAll l plan) (fun tables' _ => tables'.Tidy l.set) fun _ => True := by
  refine (Ends.forM (motive := fun _ s => ImportTables.Tidy l.set s) h ?_).bind fun _ tables' h' =>
    .mapM (motive := fun _ _ s => ImportTables.Tidy l.set s) h' fun _ planned _ _ _ s hs =>
      importAttribute_tidy hs planned
  rintro done ⟨m, source⟩ rest hsplit s hs
  have hmem : (m, source) ∈ l.set.inputs.zipIdx := hsplit ▸ List.mem_append_right _ List.mem_cons_self
  exact importModule_tidy hs hset (List.mk_mem_zipIdx_iff_getElem?.1 hmem)

end Relocation

/-! ## Tidy output

The tables of an output are in order: definitions are numbered as they are walked through, rows as they
come, nothing is there twice, and references lead out of what was merged.
-/

namespace TypeDef

variable {t : TypeDef}

/-- The tokens that a type has in a table of definitions: its own, or those of its members of one kind. -/
def tokensOfTable (table : UInt8) (t : TypeDef) : List Token :=
  if table = Table.typeDef then [t.token]
  else if table = Table.field then t.fields.map Field.token
  else if table = Table.method then t.methods.map Method.token
  else if table = Table.property then t.properties.map Property.token
  else if table = Table.event then t.events.map Event.token
  else []

theorem map_token_filter_members (t : TypeDef) {table : UInt8} (htable : table ≠ Table.typeDef) :
    (t.members.filter (·.table == table)).map Member.token = t.tokensOfTable table := by
  unfold tokensOfTable
  rw [if_neg htable]
  split_ifs with hfield hmethod hproperty hevent
  case neg =>
    have hnone : ∀ x ∈ t.members, ¬ x.table == table := by
      rintro (x | x | x | x) - hx <;> simp_all [Member.table]
    rw [List.filter_eq_nil_iff.2 hnone, List.map_nil]
  all_goals
    subst table
    simp [members, List.filter_map, Function.comp_def, Member.table, Table.field, Table.method,
      Table.property, Table.event, Member.token]

/-- Where tokens lie in the tables of their kinds, those of one table are those of one kind. -/
theorem filter_definedTokens (ht : t.token.table = Table.typeDef)
    (hmembers : ∀ x ∈ t.members, x.token.table = x.table) (table : UInt8) :
    t.definedTokens.filter (·.table == table) = t.tokensOfTable table := by
  have hsame : t.members.filter (fun x => x.token.table == table) = t.members.filter (·.table == table) :=
    List.filter_congr fun x hx => by rw [hmembers x hx]
  rw [definedTokens_eq, List.filter_cons, ht, List.filter_map, Function.comp_def, hsame]
  by_cases htable : table = Table.typeDef
  · -- no member is in the table of types
    have hnone : ∀ x ∈ t.members, ¬ x.table == Table.typeDef := fun x _ => by simpa using x.table_ne_typeDef
    subst table
    rw [List.filter_eq_nil_iff.2 hnone]
    rfl
  · rw [if_neg (by simpa using Ne.symm htable), map_token_filter_members t htable]

end TypeDef

/-- The tables of an output are tidy beside the modules that it was made of. Definitions have the tokens of
the first rows of their tables in the order in which they are walked through, rows those in their own order.
No two referenced modules agree, and no two rows say the same. Every referenced module has a row and is none
of those merged; a row for a nested type leads to an earlier row, unless a reference of the module that
attributes are taken from may be mistaken for a type. -/
structure Module.Tidy (set : ModuleSet) (out : Module) : Prop where
  definitions : ∀ table, Token.InOrder table (out.walk.flatMap fun entry => entry.1.tokensOfTable table)
  typeRefs : Token.InOrder Table.typeRef (out.typeRefs.map TypeRef.token)
  memberRefs : Token.InOrder Table.memberRef (out.memberRefs.map MemberRef.token)
  apart : out.references.Pairwise fun other identity => other.agrees identity = false
  distinctTypeRefs : (out.typeRefs.map fun r => (r.scope, r.namespaceName, r.name)).Nodup
  distinctMemberRefs : (out.memberRefs.map fun r => (r.parent, r.name, r.signature)).Nodup
  outside : ∀ r ∈ out.typeRefs, r.scope ≠ .here
  nested : set.SourceTabled → ∀ before r after, out.typeRefs = before ++ r :: after →
    ∀ outer, r.scope = .enclosing outer → outer ∈ before.map TypeRef.token
  used : ∀ i < out.references.length, ∃ r ∈ out.typeRefs, ∃ index,
    r.scope = .reference index ∧ index.toNat = i
  foreign : ∀ identity ∈ out.references, ∀ m ∈ set.inputs, identity.name ≠ m.name

namespace Relocation

open Shape ImportTables

variable {l : Linkage} {set : ModuleSet} {plan : Plan} {policy : Policy} {out : Module}

/-! ## Definitions as they are walked through -/

/-- What the types have of one table is in order, from the first type to the last. -/
theorem WrittenOut.inOrder_walk {shapes : List Shape} {rs : List Redirect} {sub final : Substitution}
    {a : Allocator} (h : WrittenOut l shapes rs sub final a out) (table : UInt8) :
    Token.InOrder table (out.walk.flatMap fun entry => entry.1.tokensOfTable table) := by
  have hwalk : (out.allTypes.flatMap TypeDef.definedTokens).filter (·.table == table) =
      out.walk.flatMap fun entry => entry.1.tokensOfTable table := by
    rw [List.filter_flatMap, ← Module.map_walk, List.flatMap_map]
    refine List.flatMap_congr fun entry hentry => ?_
    have ht : entry.1 ∈ out.allTypes := Module.map_walk out ▸ List.mem_map_of_mem hentry
    exact TypeDef.filter_definedTokens (h.table_type _ ht) (h.table_member _ ht) table
  exact hwalk ▸ h.inOrder table

/-- What a relocation that answers leaves of its passes. -/
theorem run_writes (hset : set.WellNumbered) {log : Log}
    (h : ((run set plan policy).run.run log).1 = .ok out) : ∃ shapes rs sub a, ∃ tables : ImportTables,
      WrittenOut (.ofSet set policy) shapes rs sub tables.substitution a out ∧ tables.Wired (.ofSet set policy) ∧
      tables.Tidy set ∧ out.references = tables.references ∧ out.typeRefs = tables.typeRefs ∧
      out.memberRefs = tables.memberRefs := by
  obtain ⟨shapes, sub, a, attributes, tables, log', hlayout, himport, hwritten, -, hreferences, htypeRefs,
    hmemberRefs, -⟩ := run_ok h
  have hset' : (Linkage.ofSet set policy).set.WellNumbered := hset
  obtain ⟨rs, ⟨⟨placed, rfl, hlanded⟩, placed', hplaced, hbuilt⟩, hsub⟩ :=
    layOut_settles ((buildAll_lands _ plan).and (buildAll_settles hset' plan)) hlayout
  have hsettled := hlanded.settled hset'.identified hsub
  have hwired := wired_start hset'.identified hlanded hsub fun hnumbered _ => known_of_mem_keys hnumbered hlayout
  have hbound := (importAll_ends hset'.identified hwired (counted_start sub a)).of_run himport
  have htidy : ImportTables.Tidy set ⟨sub, a, [], [], []⟩ :=
    .initial (handedOut_nil hsub (by decide)) fun k new hget =>
      ModuleSet.not_leadsOut_of_mem_keys hset'.identified (hsettled.declared k new hget)
  refine ⟨_, rs, sub, a, tables, ⟨hplaced ▸ hbuilt.accounted hset', hsub, fun k new hget => ?_,
    allTypes_eq hwritten⟩, hbound.wired, (importAll_tidy htidy hset'.identified plan).of_run himport,
    hreferences, htypeRefs, hmemberRefs⟩
  -- what has a counterpart before references are imported is a definition of an input
  obtain ⟨m, hm, -⟩ := ModuleSet.mem_keys.1 (hsettled.declared k new hget)
  exact hbound.step.known k new (ModuleSet.isInput_of_getElem? hm) hget

/-- The tables of an output are tidy. -/
theorem run_tidy (hset : set.WellNumbered) {log : Log}
    (h : ((run set plan policy).run.run log).1 = .ok out) : out.Tidy set := by
  obtain ⟨shapes, rs, sub, a, tables, hout, hwired, htidy, hreferences, htypeRefs, hmemberRefs⟩ :=
    run_writes hset h
  constructor
  case definitions => exact hout.inOrder_walk
  case typeRefs => exact htypeRefs ▸ htidy.rows.inOrder
  case memberRefs => exact hmemberRefs ▸ hwired.memberRows.inOrder
  case apart => exact hreferences ▸ htidy.apart
  case distinctTypeRefs => exact htypeRefs ▸ htidy.distinct
  case distinctMemberRefs => exact hmemberRefs ▸ hwired.distinct
  case outside => exact htypeRefs ▸ htidy.outside
  case nested => exact htypeRefs ▸ htidy.nested
  case used =>
    rw [hreferences, htypeRefs]
    exact htidy.used
  case foreign =>
    rw [hreferences]
    intro identity hidentity m hm hname
    have hnone := List.findIdx?_eq_none_iff.1 (htidy.foreign identity hidentity) m hm
    exact absurd hname.symm (by simpa using hnone)

/-! ## Attributes of a module of the same name -/

/-- A module that declares a class `N.T`. -/
def taggedModule : Module :=
  { Module.ofIdentity (.ofName "A" ⟨1, 0, 0, 0⟩) .dll with
    types := [⟨⟨0x02000001⟩, "N", "T", ⟨0x1⟩, none, [], [], [], [], [], [], [], []⟩] }

/-- A module of the same name that has the class as an attribute and a nested class of another module; the
reference to the type around the latter has the given token. -/
def taggingModule (outer : Token) : Module :=
  { taggedModule with
    references := [.ofName "ext" ⟨1, 0, 0, 0⟩]
    typeRefs := [⟨outer, .reference 0, "X", "Outer"⟩, ⟨⟨0x01000002⟩, .enclosing outer, "", "Attr"⟩]
    attributes := [⟨⟨0x02000001⟩, [], []⟩, ⟨⟨0x01000002⟩, [], []⟩] }

/-- The first module, to which the attributes of the second one are copied. -/
def tagged (outer : Token) : ModuleSet :=
  { primary := ⟨⟨"A.dll"⟩, taggedModule⟩, others := [], references := []
    attributeSource := some ⟨⟨"S.dll"⟩, taggingModule outer⟩ }

/-- The policy to copy attributes and nothing else. -/
def copyingPolicy : Policy :=
  { unionPolicy with options := { unionPolicy.options with unionMerge := false, copyAttributes := true } }

/-- The plan to do so. -/
def taggedPlan : Plan :=
  { placements := [(⟨0, 0⟩, .emit "T" false)], resources := [], attributes := [⟨.attributeFile, 0⟩, ⟨.attributeFile, 1⟩]
    renames := [], hidden := 0 }

/-- The row of the nested class refers to the one before it. -/
theorem run_tidy_tagged : ∃ out, ((run (tagged ⟨0x01000001⟩) taggedPlan copyingPolicy).run.run []).1 = .ok out ∧
    out.typeRefs = [⟨⟨0x01000001⟩, .reference 0, "X", "Outer"⟩,
      ⟨⟨0x01000002⟩, .enclosing ⟨0x01000001⟩, "", "Attr"⟩] ∧ out.Tidy (tagged ⟨0x01000001⟩) ∧
    ∀ before r after, out.typeRefs = before ++ r :: after →
      ∀ outer, r.scope = .enclosing outer → outer ∈ before.map TypeRef.token := by
  have hok : ((run (tagged ⟨0x01000001⟩) taggedPlan copyingPolicy).run.run []).1.toOption.map Module.typeRefs =
      some [⟨⟨0x01000001⟩, .reference 0, "X", "Outer"⟩,
        ⟨⟨0x01000002⟩, .enclosing ⟨0x01000001⟩, "", "Attr"⟩] := by decide +kernel
  obtain ⟨out, hrun, hrows⟩ := exists_of_map_toOption hok
  have htidy : out.Tidy (tagged ⟨0x01000001⟩) := run_tidy (by decide) hrun
  exact ⟨out, hrun, hrows, htidy, htidy.nested (by decide)⟩

/-- Where the reference to the outer class has the token of the other class, it is taken for that one, so that
the row of the nested class leads to no earlier row. -/
theorem run_nests_in_type : (tagged ⟨0x02000001⟩).WellNumbered ∧
    ((Plan.build (tagged ⟨0x02000001⟩) (.ofSet (tagged ⟨0x02000001⟩)) copyingPolicy).run.run []).1.toOption =
      some taggedPlan ∧
    ∃ out, ((run (tagged ⟨0x02000001⟩) taggedPlan copyingPolicy).run.run []).1 = .ok out ∧
      out.walk.map (fun entry => (entry.2, entry.1.token)) = [("N.T", ⟨0x02000001⟩)] ∧
      out.typeRefs = [⟨⟨0x01000001⟩, .enclosing ⟨0x02000001⟩, "", "Attr"⟩] ∧
      ¬ ∀ before r after, out.typeRefs = before ++ r :: after →
        ∀ outer, r.scope = .enclosing outer → outer ∈ before.map TypeRef.token := by
  have hok : ((run (tagged ⟨0x02000001⟩) taggedPlan copyingPolicy).run.run []).1.toOption.map
      (fun out => (out.walk.map fun entry => (entry.2, entry.1.token), out.typeRefs)) =
        some ([("N.T", ⟨0x02000001⟩)], [⟨⟨0x01000001⟩, .enclosing ⟨0x02000001⟩, "", "Attr"⟩]) := by
    decide +kernel
  obtain ⟨out, hrun, htables⟩ := exists_of_map_toOption hok
  obtain ⟨hwalk, hrows⟩ := Prod.mk.inj htables
  refine ⟨by decide, by decide +kernel, out, hrun, hwalk, hrows, fun hnested => ?_⟩
  exact absurd (hnested [] _ [] hrows _ rfl) List.not_mem_nil

end Relocation

end ModuleLinker
