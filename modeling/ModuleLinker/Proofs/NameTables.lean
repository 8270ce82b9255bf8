import ModuleLinker.Proofs.ModuleSet
import ModuleLinker.Proofs.Relocation.Output

namespace ModuleLinker

/-! # Names in a table of names

The table of a module's type names is filled row by row, and a later row of a token replaces an earlier
one. Where tokens are numbered well there are no two rows of one token, so that the table has for every
token the name that the module gives it.

The name of a reference, and the module that it leads to, are those that its chain comes to, so that both are
found however long the chain is.
-/

namespace NameTable

variable {names : NameTable} {token other : Token} {name : String}

theorem name?_insert_self (names : NameTable) (token : Token) (name : String) :
    (names.insert token name).name? token = some name := by
  simp [insert, name?]

theorem name?_insert_of_ne (names : NameTable) (h : other ≠ token) (name : String) :
    (names.insert token name).name? other = names.name? other := by
  have hbeq : (other == token) = false := by simpa using h
  unfold insert name?
  rw [List.lookup_cons, hbeq, lookup_filter_ne h]

/-- The table with rows filled in; a row without a name is left out. -/
def fill (tokenOf : α → Token) (nameOf : α → Option String) (names : NameTable) (xs : List α) :
    NameTable :=
  xs.foldl (fun names x =>
    match nameOf x with
    | some name => names.insert (tokenOf x) name
    | none => names) names

variable {tokenOf : α → Token} {nameOf : α → Option String} {xs : List α}

/-- Rows of other tokens, and rows without names, leave the name of a token as it is. -/
theorem name?_fill_of_none (h : ∀ x ∈ xs, tokenOf x = token → nameOf x = none) (names : NameTable) :
    (names.fill tokenOf nameOf xs).name? token = names.name? token := by
  induction xs generalizing names with
  | nil => rfl
  | cons x xs ih =>
    obtain ⟨hx, hrest⟩ := List.forall_mem_cons.1 h
    rw [fill, List.foldl_cons]
    refine (ih hrest _).trans ?_
    rcases hname : nameOf x with _ | name
    · rfl
    · have hne : token ≠ tokenOf x := by
        intro heq
        rw [hx heq.symm] at hname
        exact nomatch hname
      exact name?_insert_of_ne names hne name

/-- Where no two rows have one token, a row's token has its name. -/
theorem name?_fill_of_mem (hnodup : (xs.map tokenOf).Nodup) {x : α} (hx : x ∈ xs)
    (hname : nameOf x = some name) (names : NameTable) :
    (names.fill tokenOf nameOf xs).name? (tokenOf x) = some name := by
  induction xs generalizing names with
  | nil => exact absurd hx List.not_mem_nil
  | cons y xs ih =>
    rw [List.map_cons, List.nodup_cons] at hnodup
    rw [fill, List.foldl_cons]
    rcases List.mem_cons.1 hx with rfl | hrest
    · have hlater : ∀ y ∈ xs, tokenOf y = tokenOf x → nameOf y = none := by
        intro y hy heq
        exact absurd (heq ▸ List.mem_map_of_mem hy) hnodup.1
      refine (name?_fill_of_none hlater _).trans ?_
      rw [hname]
      exact name?_insert_self names (tokenOf x) name
    · exact ih hnodup.2 hrest _

end NameTable

namespace Module

variable {m : Module} {token : Token}

theorem ofModule_eq_fill (m : Module) : NameTable.ofModule m =
    ((⟨[]⟩ : NameTable).fill (fun entry => entry.1.token) (fun entry => some entry.2) m.walk).fill
      TypeRef.token (fun row => m.typeRefName? row.token) m.typeRefs := rfl

theorem map_token_walk (m : Module) :
    (m.walk.map fun entry => entry.1.token) = m.allTypes.map TypeDef.token := by
  rw [← map_walk, List.map_map]
  rfl

/-- The tokens of types and of references to types are of their tables, and no two types and no two
references have the same token. Names of types depend on no other tokens. -/
structure TypesNumbered (m : Module) : Prop where
  nodup_types : (m.allTypes.map TypeDef.token).Nodup
  types : ∀ t ∈ m.allTypes, t.token.table = Table.typeDef
  nodup_typeRefs : (m.typeRefs.map TypeRef.token).Nodup
  typeRefs : ∀ r ∈ m.typeRefs, r.token.table = Table.typeRef

instance (m : Module) : Decidable m.TypesNumbered :=
  decidable_of_iff ((m.allTypes.map TypeDef.token).Nodup ∧
      (∀ t ∈ m.allTypes, t.token.table = Table.typeDef) ∧ (m.typeRefs.map TypeRef.token).Nodup ∧
      ∀ r ∈ m.typeRefs, r.token.table = Table.typeRef)
    ⟨fun ⟨a, b, c, d⟩ => ⟨a, b, c, d⟩, fun ⟨a, b, c, d⟩ => ⟨a, b, c, d⟩⟩

theorem WellNumbered.typesNumbered (h : m.WellNumbered) : m.TypesNumbered :=
  ⟨h.nodup_types, h.types, h.identified.nodup_typeRefs, h.typeRefs⟩

namespace TypesNumbered

theorem nodup_walk (h : m.TypesNumbered) : (m.walk.map fun entry => entry.1.token).Nodup :=
  m.map_token_walk ▸ h.nodup_types

/-- A declared type has the name that it is declared with. -/
theorem typeName?_of_mem_walk (h : m.TypesNumbered) {t : TypeDef} {name : String} (ht : (t, name) ∈ m.walk) :
    m.typeName? t.token = some name := by
  rw [typeName?, if_pos (h.types t (m.map_walk ▸ List.mem_map_of_mem ht)), find?_key_of_mem h.nodup_walk ht]
  rfl

theorem typeName?_of_mem_typeRefs (h : m.TypesNumbered) {row : TypeRef} (hrow : row ∈ m.typeRefs) :
    m.typeName? row.token = m.typeRefName? row.token := by
  have hne : ¬ Table.typeRef = Table.typeDef := by decide
  rw [typeName?, h.typeRefs row hrow, if_neg hne, if_pos rfl]

/-- A reference to a type has the name that its chain spells. -/
theorem typeName?_of_chain (h : m.TypesNumbered) {row : TypeRef} (hrow : row ∈ m.typeRefs) {n : Nat}
    {root : Option Nat} {name : String} (hchain : Chain m.typeRefs n row root name) :
    m.typeName? row.token = some name :=
  (h.typeName?_of_mem_typeRefs hrow).trans (typeRefName?_of_chain h.nodup_typeRefs hrow hchain)

/-- The table has the declared types under the names that they are declared with. -/
theorem name?_declared (h : m.TypesNumbered) (token : Token) :
    ((⟨[]⟩ : NameTable).fill (fun entry => entry.1.token) (fun entry => some entry.2)
      m.walk).name? token = (m.walk.find? fun entry => entry.1.token == token).map (·.2) := by
  by_cases hmem : token ∈ m.walk.map fun entry => entry.1.token
  · obtain ⟨entry, hentry, rfl⟩ := List.mem_map.1 hmem
    rw [find?_key_of_mem h.nodup_walk hentry]
    exact NameTable.name?_fill_of_mem h.nodup_walk hentry rfl _
  · have hnone : m.walk.find? (fun entry => entry.1.token == token) = none := by
      rw [List.find?_eq_none]
      intro entry hentry heq
      exact hmem (List.mem_map.2 ⟨entry, hentry, by simpa using heq⟩)
    rw [hnone]
    refine NameTable.name?_fill_of_none ?_ _
    intro entry hentry heq
    exact absurd (List.mem_map.2 ⟨entry, hentry, heq⟩) hmem

theorem name?_declared_of_table (h : m.TypesNumbered) (htable : token.table ≠ Table.typeDef) :
    (m.walk.find? fun entry => entry.1.token == token).map (·.2) = none := by
  rw [Option.map_eq_none_iff, List.find?_eq_none]
  intro entry hentry heq
  have htoken : entry.1.token = token := by simpa using heq
  have hmem : entry.1 ∈ m.allTypes := m.map_walk ▸ List.mem_map_of_mem hentry
  exact htable (htoken ▸ h.types _ hmem)

/-- The table of names has for each token the name of the type that it stands for. -/
theorem name?_ofModule (h : m.TypesNumbered) (token : Token) :
    (NameTable.ofModule m).name? token = m.typeName? token := by
  rw [ofModule_eq_fill, typeName?]
  by_cases hdef : token.table = Table.typeDef
  · have hrows : ∀ row ∈ m.typeRefs, row.token = token → m.typeRefName? row.token = none := by
      intro row hrow heq
      have htable := h.typeRefs row hrow
      rw [heq, hdef] at htable
      exact absurd htable (by decide)
    rw [if_pos hdef, NameTable.name?_fill_of_none hrows, h.name?_declared]
  · have hdeclared := (h.name?_declared token).trans (h.name?_declared_of_table hdef)
    rw [if_neg hdef]
    by_cases href : token.table = Table.typeRef
    · rw [if_pos href]
      by_cases hmem : token ∈ m.typeRefs.map TypeRef.token
      · obtain ⟨row, hrow, rfl⟩ := List.mem_map.1 hmem
        rcases hname : m.typeRefName? row.token with _ | name
        · refine (NameTable.name?_fill_of_none ?_ _).trans hdeclared
          intro row' _ heq
          rw [heq, hname]
        · exact NameTable.name?_fill_of_mem h.nodup_typeRefs hrow hname _
      · refine (NameTable.name?_fill_of_none ?_ _).trans (hdeclared.trans ?_)
        · intro row hrow heq
          exact absurd (heq ▸ List.mem_map_of_mem hrow) hmem
        · exact (typeRefName?_of_not_mem hmem).symm
    · rw [if_neg href]
      refine (NameTable.name?_fill_of_none ?_ _).trans hdeclared
      intro row hrow heq
      exact absurd (heq ▸ h.typeRefs row hrow) href

theorem name_ofModule (h : m.TypesNumbered) (token : Token) :
    (NameTable.ofModule m).name token = m.typeNameOrToken token := by
  rw [NameTable.name, h.name?_ofModule, typeNameOrToken]

end TypesNumbered

/-- Where the tokens of types are numbered well and no reference encloses itself by way of others, the table of
names has the same name for each token as the search for it, and that is the name that a type is declared with.
Each reference starts a chain, of any length, or one that breaks off at a missing row. A chain spells the name of
its reference, which leads to the referenced module at the end of the chain, and nowhere if the chain ends in the
module itself or at an index without a referenced module. A reference whose chain breaks off has no name and leads
nowhere. -/
theorem lookups_agree (h : m.TypesNumbered) (hacyclic : Acyclic m.typeRefs) :
    (∀ token, (NameTable.ofModule m).name? token = m.typeName? token) ∧
    (∀ t fullName, (t, fullName) ∈ m.walk → m.typeName? t.token = some fullName) ∧
    ∀ row ∈ m.typeRefs,
      ((∃ n root name, Chain m.typeRefs n row root name) ∨ Breaks m.typeRefs row) ∧
      (∀ n root name, Chain m.typeRefs n row root name →
        m.typeName? row.token = some name ∧
        m.typeRefTarget? row.token = root.bind (m.references[·]?)) ∧
      (Breaks m.typeRefs row → m.typeName? row.token = none ∧ m.typeRefTarget? row.token = none) := by
  refine ⟨h.name?_ofModule, fun t fullName ht => h.typeName?_of_mem_walk ht, fun row hrow => ?_⟩
  refine ⟨hacyclic.chain_or_breaks hrow, fun n root name hchain => ?_, fun hbreaks => ?_⟩
  · exact ⟨h.typeName?_of_chain hrow hchain, typeRefTarget?_of_chain h.nodup_typeRefs hrow hchain⟩
  · have hname := typeRefName?_of_breaks h.nodup_typeRefs hrow hbreaks
    exact ⟨(h.typeName?_of_mem_typeRefs hrow).trans hname,
      typeRefTarget?_of_breaks h.nodup_typeRefs hrow hbreaks⟩

/-- A module that refers to `N.Outer/Middle/Inner` of another one, by a chain through all rows of its table. -/
def nestingModule : Module :=
  { Relocation.boxModule "nesting" none with
    typeRefs := [⟨⟨0x01000001⟩, .enclosing ⟨0x01000002⟩, "", "Inner"⟩,
      ⟨⟨0x01000002⟩, .enclosing ⟨0x01000003⟩, "", "Middle"⟩, ⟨⟨0x01000003⟩, .reference 0, "N", "Outer"⟩] }

theorem lookups_agree_nesting : nestingModule.TypesNumbered ∧ Acyclic nestingModule.typeRefs ∧
    (NameTable.ofModule nestingModule).name? ⟨0x02000002⟩ = some "N.Box/Inner" ∧
    (NameTable.ofModule nestingModule).name? ⟨0x01000001⟩ = some "N.Outer/Middle/Inner" ∧
    nestingModule.typeRefTarget? ⟨0x01000001⟩ = some (.ofName "core" ⟨4, 0, 0, 0⟩) := by
  have hnumbered : nestingModule.TypesNumbered := by decide
  have hacyclic : Acyclic nestingModule.typeRefs := by
    -- here tokens become smaller from an enclosing row to the nested one
    refine .of_level (fun row => 0x01000003 - row.token.value.toNat) ?_
    have hlevels : ∀ outer ∈ nestingModule.typeRefs, ∀ row ∈ nestingModule.typeRefs,
        row.scope = .enclosing outer.token →
          0x01000003 - outer.token.value.toNat < 0x01000003 - row.token.value.toNat := by decide
    exact fun outer row henclosing => hlevels outer henclosing.outer_mem row henclosing.mem henclosing.scope
  obtain ⟨hnames, hdeclared, hrefs⟩ := lookups_agree hnumbered hacyclic
  have houter : Chain nestingModule.typeRefs 1 ⟨⟨0x01000003⟩, .reference 0, "N", "Outer"⟩ (some (0 : UInt32).toNat)
      (qualifiedName "N" "Outer") := .reference rfl
  have hmiddle : Chain nestingModule.typeRefs 2 ⟨⟨0x01000002⟩, .enclosing ⟨0x01000003⟩, "", "Middle"⟩
      (some (0 : UInt32).toNat) _ := .nested rfl (by decide) (by decide) houter
  obtain ⟨-, hfollowed, -⟩ := hrefs _ (List.mem_of_getElem? (i := 0) rfl)
  obtain ⟨hname, htarget⟩ := hfollowed 3 _ _ (.nested rfl (by decide) (by decide) hmiddle)
  obtain ⟨inner, htoken, hinner⟩ : ∃ t, t.token = ⟨0x02000002⟩ ∧ (t, "N.Box/Inner") ∈ nestingModule.walk :=
    ⟨_, rfl, List.mem_of_getElem? (i := 1) rfl⟩
  exact ⟨hnumbered, hacyclic, htoken ▸ (hnames _).trans (hdeclared _ _ hinner), (hnames _).trans hname, htarget⟩

end Module

end ModuleLinker
