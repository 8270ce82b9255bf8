import ModuleLinker.Proofs.ReferenceChain
import ModuleLinker.Proofs.Relocation.Counterparts

namespace ModuleLinker

/-! # What references are bound to

A reference that is imported is bound: to the counterpart of a definition of the inputs, or to a row of
the output that spells it. Importing keeps the tables wired, that is, every counterpart that has been
set is one that binds its reference, and adds to them without changing what is there.
-/

/-! ## Rows as they come -/

/-- Where the scope of a further row may lead: to a module that is referenced already, to one that is
added for the row, which agrees with none and is no input, or to an earlier row. The third list are the
references with the row. -/
inductive LeadsOn (set : ModuleSet) (references : List Identity) (rows : List TypeRef) :
    List Identity → Scope → Prop
  | known {index : UInt32} (hindex : index.toNat < references.length) :
    LeadsOn set references rows references (.reference index)
  | added {index : UInt32} {identity : Identity} (hindex : index.toNat = references.length)
      (hnew : ∀ other ∈ references, other.agrees identity = false)
      (hforeign : set.inputIndex? identity.name = none) :
    LeadsOn set references rows (references ++ [identity]) (.reference index)
  | nested {outer : TypeRef} (houter : outer ∈ rows) :
    LeadsOn set references rows references (.enclosing outer.token)

/-- Referenced modules and rows for types as they come: each row leads on from those before it and says
what none of them says. -/
inductive TypeRows (set : ModuleSet) : List Identity → List TypeRef → Prop
  | nil : TypeRows set [] []
  | add {references references' : List Identity} {rows : List TypeRef} {row : TypeRef}
      (h : TypeRows set references rows) (hleads : LeadsOn set references rows references' row.scope)
      (hnew : ∀ r ∈ rows, r.said ≠ row.said) : TypeRows set references' (rows ++ [row])

namespace Importing

variable {l : Linkage} {source : Nat}

theorem isInput_of_inputOf? {target : Option Identity} {input : Nat}
    (h : inputOf? l source target = some input) : l.set.isInput input := by
  unfold inputOf? at h
  split at h
  · exact ModuleSet.isInput_of_inputIndex? h
  · split at h
    case isTrue hinput => exact Option.some.inj h ▸ hinput
    case isFalse => exact nomatch h

/-- A token is taken for a type that an input declares. -/
theorem declares_of_inputType? {token : Token} {t : Nat × TypeDef}
    (h : inputType? l source token = some t) : l.set.Declares ⟨t.1, t.2⟩ := by
  unfold inputType? at h
  split at h
  · dsimp only at h
    split at h
    · exact nomatch h
    · obtain ⟨m, hm, h⟩ := Option.bind_eq_some_iff.1 h
      obtain ⟨u, hu, h⟩ := Option.bind_eq_some_iff.1 h
      obtain rfl := Option.some.inj h
      exact ⟨m, hm, (Module.mem_allTypes_of_findType? hu).1⟩
  · split at h
    · obtain ⟨m, -, h⟩ := Option.bind_eq_some_iff.1 h
      obtain ⟨input, -, h⟩ := Option.bind_eq_some_iff.1 h
      obtain ⟨name, -, h⟩ := Option.bind_eq_some_iff.1 h
      obtain ⟨target, htarget, h⟩ := Option.bind_eq_some_iff.1 h
      obtain ⟨u, hu, h⟩ := Option.bind_eq_some_iff.1 h
      obtain rfl := Option.some.inj h
      exact ⟨target, htarget, Module.mem_allTypes_of_findTypeNamed? hu⟩
    · exact nomatch h

/-! ## Searching a type and its bases for a member -/

/-- Where the search for a member ends: at a member of a type of an input, at a base type that is none
of the inputs', or nowhere. -/
inductive Search where
  | found (input : Nat) (type : TypeDef) (token : Token)
  | outside
  | missing

/-- The search of a type and its base types for a member. -/
def search (l : Linkage) (key : MemberKey) : (steps : Nat) → Nat × TypeDef → Search
  | 0, _ => .missing
  | steps + 1, (input, t) =>
    match (t.memberKeys (l.names input)).lookup key with
    | some found => .found input t found
    | none =>
      match t.base with
      | none => .missing
      | some base =>
        match inputType? l input base with
        | some next => search l key steps next
        | none => .outside

/-- The search for the member that a reference means. -/
def memberSearch (l : Linkage) (source : Nat) (r : MemberRef) : Search :=
  match inputType? l source r.parent with
  | some t => search l (r.key (l.names source)) searchDepth t
  | none => .outside

/-- Importing a reference to a member follows the search. -/
theorem mergedMember_eq (l : Linkage) (source : Nat) (r : MemberRef) (fault : Unbound) (steps : Nat)
    (t : Nat × TypeDef) : mergedMember l source r fault steps t =
      match search l (r.key (l.names source)) steps t with
      | .found input _ found => do
        match (← get).substitution.resolve input found with
        | .ok token => return token
        | .error fault => throw fault
      | .outside => externalMember l source r
      | .missing => unbound fault := by
  induction steps generalizing t with
  | zero => rfl
  | succ steps ih =>
    rcases t with ⟨input, t⟩
    rw [mergedMember, search]
    rcases (t.memberKeys (l.names input)).lookup (r.key (l.names source)) with _ | found
    · dsimp only
      rcases t.base with _ | base
      · rfl
      · dsimp only
        rcases inputType? l input base with _ | next
        · rfl
        · exact ih next
    · rfl

/-- A search that ends at a member ends at one that an input declares. -/
theorem search_found {key : MemberKey} {steps : Nat} {t : Nat × TypeDef} {input : Nat} {type : TypeDef}
    {token : Token} (ht : l.set.Declares ⟨t.1, t.2⟩) (h : search l key steps t = .found input type token) :
    l.set.Declares ⟨input, type⟩ ∧ (type.memberKeys (l.names input)).lookup key = some token := by
  induction steps generalizing t with
  | zero => exact nomatch h
  | succ steps ih =>
    rcases t with ⟨i, u⟩
    rw [search] at h
    split at h
    case h_1 found hlookup =>
      obtain ⟨rfl, rfl, rfl⟩ := Search.found.inj h
      exact ⟨ht, hlookup⟩
    case h_2 =>
      split at h
      case h_1 => exact nomatch h
      case h_2 base _ =>
        split at h
        case h_1 next hnext => exact ih (declares_of_inputType? hnext) h
        case h_2 => exact nomatch h

theorem memberSearch_found {r : MemberRef} {input : Nat} {type : TypeDef} {token : Token}
    (h : memberSearch l source r = .found input type token) : l.set.Declares ⟨input, type⟩ ∧
      (type.memberKeys (l.names input)).lookup (r.key (l.names source)) = some token := by
  unfold memberSearch at h
  split at h
  case h_1 t ht => exact search_found (declares_of_inputType? ht) h
  case h_2 => exact nomatch h

end Importing

namespace ImportTables

open Importing

/-! ## Bound references -/

/-- A token is that of a row which refers to a type of another module by its full name. -/
def Refers (tables : ImportTables) (name : String) (identity : Identity) (token : Token) : Prop :=
  ∃ row ∈ tables.typeRefs, row.token = token ∧ ∃ n index other,
    Chain tables.typeRefs n row (some index) name ∧ tables.references[index]? = some other ∧
      other.agrees identity

/-- A row says what a reference to a member says, with the tokens of the output. -/
structure Spells (tables : ImportTables) (source : Nat) (r row : MemberRef) : Prop where
  name : row.name = r.name
  parent : tables.substitution.resolve source r.parent = .ok row.parent
  signature : r.signature.mapTokens (tables.substitution.resolve source) = .ok row.signature

/-- What a reference to a type is bound to: the counterpart of the type of an input, or a row. -/
inductive BindsType (l : Linkage) (tables : ImportTables) (source : Nat) (m : Module) (row : TypeRef)
    (new : Token) : Prop
  | definition {n : Nat} {root : Option Nat} {name : String} {input : Nat} {target : Module}
      {type : TypeDef} (hchain : Chain m.typeRefs n row root name)
      (hinput : inputOf? l source (root.bind (m.references[·]?)) = some input)
      (htarget : l.set.inputs[input]? = some target) (htype : target.findTypeNamed? name = some type)
      (hnew : tables.substitution.get? ⟨input, type.token⟩ = some new)
  | reference {n : Nat} {root : Option Nat} {name : String} {identity : Identity}
      (hchain : Chain m.typeRefs n row root name)
      (hidentity : root.bind (m.references[·]?) = some identity)
      (hinput : inputOf? l source (some identity) = none) (hrow : tables.Refers name identity new)

/-- What a reference to a member is bound to: the counterpart of the member where its search ends, or a
row. -/
inductive BindsMember (l : Linkage) (tables : ImportTables) (source : Nat) (r : MemberRef)
    (new : Token) : Prop
  | definition {input : Nat} {type : TypeDef} {token : Token}
      (hsearch : memberSearch l source r = .found input type token)
      (hnew : tables.substitution.resolve input token = .ok new)
  | reference {row : MemberRef} (hsearch : memberSearch l source r = .outside)
      (hrow : row ∈ tables.memberRefs) (htoken : row.token = new) (hspells : tables.Spells source r row)

/-! ## Tables that are added to -/

theorem getElem?_of_isPrefix {xs ys : List α} (h : xs <+: ys) {i : Nat} {x : α} (hx : xs[i]? = some x) :
    ys[i]? = some x := by
  obtain ⟨more, rfl⟩ := h
  rw [List.getElem?_append_left (List.getElem?_eq_some_iff.1 hx).1, hx]

/-- The second tables are the first ones with more in them. New counterparts are only those of tokens
in `changed`, and those of the inputs' tokens are not replaced. -/
structure Step (set : ModuleSet) (changed : SourceToken → Prop) (tables tables' : ImportTables) :
    Prop where
  references : tables.references <+: tables'.references
  typeRefs : tables.typeRefs ⊆ tables'.typeRefs
  memberRefs : tables.memberRefs ⊆ tables'.memberRefs
  known : ∀ k new, set.isInput k.source → tables.substitution.get? k = some new →
    tables'.substitution.get? k = some new
  unchanged : ∀ k, ¬ changed k → tables'.substitution.get? k = tables.substitution.get? k

namespace Step

variable {set : ModuleSet} {p q : SourceToken → Prop} {tables tables' tables'' : ImportTables}

theorem refl (set : ModuleSet) (p : SourceToken → Prop) (tables : ImportTables) :
    Step set p tables tables :=
  ⟨List.prefix_refl _, List.Subset.refl _, List.Subset.refl _, fun _ _ _ h => h, fun _ _ => rfl⟩

theorem trans (h : Step set p tables tables') (h' : Step set p tables' tables'') :
    Step set p tables tables'' :=
  ⟨h.references.trans h'.references, List.Subset.trans h.typeRefs h'.typeRefs,
    List.Subset.trans h.memberRefs h'.memberRefs,
    fun k new hk hget => h'.known k new hk (h.known k new hk hget),
    fun k hk => (h'.unchanged k hk).trans (h.unchanged k hk)⟩

theorem mono (h : Step set p tables tables') (hp : ∀ k, p k → q k) : Step set q tables tables' :=
  ⟨h.references, h.typeRefs, h.memberRefs, h.known, fun k hk => h.unchanged k fun hpk => hk (hp k hpk)⟩

theorem reference (h : Step set p tables tables') {index : Nat} {identity : Identity}
    (hindex : tables.references[index]? = some identity) :
    tables'.references[index]? = some identity :=
  getElem?_of_isPrefix h.references hindex

theorem resolve (h : Step set p tables tables') {source : Nat} (hinput : set.isInput source) {t u : Token}
    (hu : tables.substitution.resolve source t = .ok u) :
    tables'.substitution.resolve source t = .ok u := by
  rcases Substitution.resolve_eq_ok hu with ⟨hshared, rfl⟩ | ⟨hshared, hget⟩
  · exact Substitution.resolve_of_isShared hshared
  · exact Substitution.resolve_of_get? hshared (h.known _ _ hinput hget)

theorem refers (h : Step set p tables tables') {name : String} {identity : Identity} {token : Token}
    (hrow : tables.Refers name identity token) : tables'.Refers name identity token := by
  obtain ⟨row, hmem, htoken, n, index, other, hchain, hother, hagrees⟩ := hrow
  exact ⟨row, h.typeRefs hmem, htoken, n, index, other, hchain.mono h.typeRefs, h.reference hother, hagrees⟩

theorem spells (h : Step set p tables tables') {source : Nat} (hinput : set.isInput source)
    {r row : MemberRef} (hrow : tables.Spells source r row) : tables'.Spells source r row :=
  ⟨hrow.name, h.resolve hinput hrow.parent,
    MemberSig.mapTokens_refine (fun _ _ => h.resolve hinput) hrow.signature⟩

theorem bindsType {l : Linkage} (h : Step l.set p tables tables') {source : Nat} {m : Module}
    {row : TypeRef} {new : Token} (hrow : BindsType l tables source m row new) :
    BindsType l tables' source m row new := by
  cases hrow with
  | definition hchain hinput htarget htype hnew =>
    exact .definition hchain hinput htarget htype (h.known _ _ (isInput_of_inputOf? hinput) hnew)
  | reference hchain hidentity hinput hrow =>
    exact .reference hchain hidentity hinput (h.refers hrow)

theorem bindsMember {l : Linkage} (h : Step l.set p tables tables') {source : Nat}
    (hinput : l.set.isInput source) {r : MemberRef} {new : Token}
    (hr : BindsMember l tables source r new) : BindsMember l tables' source r new := by
  cases hr with
  | definition hsearch hnew =>
    obtain ⟨⟨m, hm, -⟩, -⟩ := memberSearch_found hsearch
    exact .definition hsearch (h.resolve (ModuleSet.isInput_of_getElem? hm) hnew)
  | reference hsearch hrow htoken hspells =>
    exact .reference hsearch (h.memberRefs hrow) htoken (h.spells hinput hspells)

end Step

/-! ## Wired tables -/

/-- What importing keeps. Rows are numbered as they come, no two of them say the same, and each referenced
module is that of a row; what has a counterpart is no shared token, definitions of types have one, and that
of a reference binds it; a row for a member spells a reference of an input that leaves the inputs. -/
structure Wired (l : Linkage) (tables : ImportTables) : Prop where
  typeRows : tables.allocator.HandedOut Table.typeRef (tables.typeRefs.map TypeRef.token)
  memberRows : tables.allocator.HandedOut Table.memberRef (tables.memberRefs.map MemberRef.token)
  references : tables.references.length ≤ tables.typeRefs.length
  scopes : ∀ row ∈ tables.typeRefs, ∀ index, row.scope = .reference index →
    index.toNat < tables.references.length
  rows : l.set.attributeSource = none → TypeRows l.set tables.references tables.typeRefs
  distinct : (tables.memberRefs.map MemberRef.said).Nodup
  unshared : ∀ k new, l.set.isInput k.source → tables.substitution.get? k = some new →
    ¬ Substitution.isShared k.token
  declared : ∀ t, l.set.Declares t →
    ∃ new, tables.substitution.get? ⟨t.source, t.value.token⟩ = some new
  defined : l.set.WellNumbered → ∀ k ∈ l.set.keys, ∃ new, tables.substitution.get? k = some new
  typeRefs : ∀ source m, l.set.inputs[source]? = some m → ∀ row ∈ m.typeRefs, ∀ new,
    tables.substitution.get? ⟨source, row.token⟩ = some new → BindsType l tables source m row new
  memberRefs : ∀ source m, l.set.inputs[source]? = some m → ∀ r ∈ m.memberRefs, ∀ new,
    tables.substitution.get? ⟨source, r.token⟩ = some new → BindsMember l tables source r new
  spelled : ∀ row ∈ tables.memberRefs, ∃ source m, l.set.inputs[source]? = some m ∧
    ∃ r ∈ m.memberRefs, memberSearch l source r = .outside ∧ tables.Spells source r row

end ImportTables

end ModuleLinker
