import ModuleLinker.Proofs.NameTables
import ModuleLinker.Proofs.Relocation.Closed
import ModuleLinker.Proofs.Relocation.Reduced
import ModuleLinker.Proofs.Relocation.Restating
import ModuleLinker.Proofs.Relocation.Rewriting
import ModuleLinker.Proofs.Relocation.TypeReferences
import ModuleLinker.Proofs.Relocation.WrittenOut

namespace ModuleLinker

/-! # Types and their names in the output

A relocation of a module by itself leaves the names of its types: what a token stands for, a type of the
module or one of another module, has the same full name in the output as in the module.
-/

/-! ## A module by itself

Where nothing else is merged, the output has the types of the module with other tokens. All definitions have
the tokens of the first rows of their tables, in the order of definitions.
-/

namespace Relocation

open Shape ImportTables Importing

/-- What a relocation of a module by itself leaves: the own shapes of its types, which have been numbered, the
tables after its references have been imported, and an output that has been written under them. -/
structure Renumbered (m : LoadedModule) (p : Policy) (plan : Plan) (out : Module) (rs : List Redirect)
    (sub₀ sub : Substitution) (a : Allocator) (tables : ImportTables) : Prop
    extends Carried (.ofSet (.alone m) p) plan out (shapesOf m p) rs ⟨sub, a, [], [], []⟩ tables where
  pass : FirstPass m p (.alone m) plan [] rs sub₀ sub a
  counterparts : Numbered ((shapesOf m p).map Prod.snd) rs sub
  accounted : Accounted ((shapesOf m p).map Prod.snd) rs
  resolved : ∀ s ∈ withinAll ((shapesOf m p).map Prod.snd), Resolved (.ofSet (.alone m) p) tables.substitution s
  closed : tables.Closed (.alone m) sub
  attributeUses : ∀ b ∈ out.attributes, tables.Names sub b.type
  entryPointUse : ∀ t ∈ out.entryPoint, tables.Names sub t
  identity : out.identity = m.module.identity
  resources : out.resources = plan.resources
  mvid : out.mvid = .zero
  signature : out.signature = none

variable {m : LoadedModule} {p : Policy} {plan : Plan} {out : Module} {rs : List Redirect}
  {sub₀ sub : Substitution} {a : Allocator} {tables : ImportTables}

theorem run_renumbers (hp : p.Plain) (hm : m.module.WellNumbered) (hnames : (m.module.walk.map Prod.snd).Nodup)
    {log log' : Log} (hplan : ((Plan.build (.alone m) (.ofSet (.alone m)) p).run.run log).1 = .ok plan)
    (hrun : ((run (.alone m) plan p).run.run log').1 = .ok out) :
    ∃ rs sub₀ sub a tables, Renumbered m p plan out rs sub₀ sub a tables := by
  have hset : (Linkage.ofSet (.alone m) p).set.WellNumbered := wellNumbered_alone hm
  obtain ⟨shapes, sub, a, attributes, tables, types, entryPoint, log'', hlayout, himport, hwritten, hentry,
    rfl⟩ := run_eq_ok hrun
  have hcopied := copied_alone hm hnames hplan
  obtain ⟨rs, ⟨⟨rfl, hlanded⟩, placed, hplaced, hbuilt⟩, hsub⟩ :=
    layOut_settles ((hcopied.built hp (Module.namesApart hnames)).and (buildAll_settles hset plan)) hlayout
  obtain ⟨sub₀, hnumbers, hredirects⟩ := substitution_eq_ok hsub
  have haccounted : Accounted ((shapesOf m p).map Prod.snd) rs := hplaced ▸ hbuilt.accounted hset
  have hcounterparts := substitution_ok haccounted hsub
  have hsettled := hlanded.settled hset.identified hsub
  have hwired := wired_start hset.identified hlanded hsub fun hnumbered _ => known_of_mem_keys hnumbered hlayout
  obtain ⟨hclosed, -, hattributes⟩ := importAll_keeps plan (.initial _ sub a) _ _ himport
  obtain ⟨htypes, hresolved⟩ := writeAll_ok _ hwritten
  obtain ⟨hentryPoint, hresolves⟩ :=
    mapM_option_ok (fun _ _ => token_ok (tables.substitution.follows_resolve 0)) hentry
  refine ⟨rs, sub₀, sub, a, tables, ⟨hlanded, hsettled, fun hnumbered => sound_of_layOut hnumbered hlayout,
    (importAll_ends hset.identified hwired (counted_start sub a)).of_run himport, htypes, rfl, rfl, rfl,
    hentryPoint⟩, ⟨hcopied, hlanded, hnumbers, hredirects⟩, hcounterparts, haccounted, hresolved, hclosed,
    hattributes, ?_, rfl, rfl, rfl, rfl⟩
  rw [outcome, hentryPoint]
  intro u hu
  obtain ⟨t, ht, rfl⟩ := Option.mem_map.1 hu
  exact hclosed.names_of_resolve (hresolves t ht)

namespace Renumbered

variable (h : Renumbered m p plan out rs sub₀ sub a tables)

include h

/-! ### Definitions -/

theorem numbered : m.module.WellNumbered := h.pass.numbered m.module List.mem_cons_self

theorem writtenOut :
    WrittenOut (.ofSet (.alone m) p) ((shapesOf m p).map Prod.snd) rs sub tables.substitution a out :=
  ⟨h.accounted, substitution_of_ok h.pass.numbers h.pass.redirects, fun _ _ => h.kept, h.allTypes_eq⟩

theorem typeTokens : Token.InOrder Table.typeRef (out.typeRefs.map TypeRef.token) :=
  h.typeRefs ▸ h.bound.wired.typeRows.inOrder

theorem memberTokens : Token.InOrder Table.memberRef (out.memberRefs.map MemberRef.token) :=
  h.memberRefs ▸ h.bound.wired.memberRows.inOrder

/-- Tokens of the output are distinct and in their tables. -/
theorem wellNumbered : out.WellNumbered := h.writtenOut.wellNumbered h.typeTokens h.memberTokens

/-! ### Uses of tokens -/

theorem names_of_names {t : Token} (ht : tables.Names sub t) : out.Names t :=
  Relocation.names_of_names h.counterparts h.accounted h.closed h.allTypes_eq h.typeRefs h.memberRefs ht

theorem typeUses : ∀ type ∈ out.allTypes, ∀ t ∈ type.tokens, out.Names t := by
  rw [h.allTypes_eq, List.forall_mem_map]
  intro s hs
  exact (h.resolved s hs).tokens_image fun _ _ _ hnew => h.names_of_names (h.closed.names_of_resolve hnew)

/-- A reference to a member uses no reference behind it. -/
theorem memberUses {before after : List MemberRef} {r : MemberRef}
    (hsplit : out.memberRefs = before ++ r :: after) : ∀ t ∈ r.parent :: r.signature.tokens,
      (out.withRows out.references out.typeRefs before).Names t := by
  intro t ht
  have hnames := h.closed.memberRefs before r after (h.memberRefs.symm.trans hsplit) t ht
  rcases hnames with hshared | hstart | htype | hmember
  · exact .inl hshared
  · obtain ⟨k, hk⟩ := hstart
    obtain ⟨s, hs, hmem⟩ := mem_definedTokens h.counterparts h.accounted h.closed hk
    refine .inr (Module.mem_definedTokens_withRows.2 (.inl ?_))
    rw [h.allTypes_eq]
    exact List.mem_flatMap.2 ⟨_, List.mem_map_of_mem hs, hmem⟩
  · exact .inr (Module.mem_definedTokens_withRows.2 (.inr (.inl (h.typeRefs ▸ htype))))
  · exact .inr (Module.mem_definedTokens_withRows.2 (.inr (.inr hmember)))

end Renumbered

end Relocation

namespace TypeDef

theorem walkFrom_eq (fullName : String) (t : TypeDef) :
    walkFrom fullName t = (t, fullName) :: walkAll fullName t.nested := by
  cases t
  rfl

end TypeDef

namespace Shape

variable {l : Linkage} {sub : Substitution} {source : Nat}

/-! ## Written types -/

/-- What is written for a type that nothing else becomes part of. -/
def written (l : Linkage) (sub : Substitution) (source : Nat) (t : TypeDef) : TypeDef :=
  image l sub (own l source t)

theorem token_written (t : TypeDef) : (written l sub source t).token = sub.counterpart source t.token := by
  rw [written, token_image, own_eq]
  rfl

theorem name_written (t : TypeDef) : (written l sub source t).name = t.name := by
  rw [written, own_eq]
  rfl

theorem namespaceName_written (t : TypeDef) : (written l sub source t).namespaceName = t.namespaceName := by
  rw [written, own_eq]
  rfl

theorem base_written (t : TypeDef) : (written l sub source t).base = t.base.map (sub.counterpart source) := by
  rw [written, base_image, own_eq]
  rfl

theorem nested_written (t : TypeDef) : (written l sub source t).nested = t.nested.map (written l sub source) := by
  rw [written, nested_image, own_eq, List.map_map]
  rfl

mutual

/-- Written types have the full names of the types that they are written for. -/
theorem walkFrom_written (fullName : String) (t : TypeDef) :
    (written l sub source t).walkFrom fullName =
      (t.walkFrom fullName).map fun entry => (written l sub source entry.1, entry.2) := by
  rcases t with ⟨token, namespaceName, name, flags, base, interfaces, genericParams, fields, methods,
    properties, events, nested, attributes⟩
  rw [TypeDef.walkFrom_eq, nested_written, walkAll_written fullName nested]
  rfl

theorem walkAll_written (outer : String) (ts : List TypeDef) :
    TypeDef.walkAll outer (ts.map (written l sub source)) =
      (TypeDef.walkAll outer ts).map fun entry => (written l sub source entry.1, entry.2) := by
  cases ts with
  | nil => rfl
  | cons t ts =>
    rw [List.map_cons, TypeDef.walkAll, TypeDef.walkAll, name_written, walkFrom_written _ t,
      walkAll_written outer ts, List.map_append]

end

theorem walk_written (t : TypeDef) : (written l sub source t).walk =
    t.walk.map fun entry => (written l sub source entry.1, entry.2) := by
  rw [TypeDef.walk, TypeDef.walk, ← walkFrom_written, TypeDef.qualifiedName, TypeDef.qualifiedName,
    name_written, namespaceName_written]

end Shape

/-- Only two tables are tables of types. -/
theorem Token.not_isType_iff {token : Token} :
    ¬ token.isType ↔ token.table ≠ Table.typeDef ∧ token.table ≠ Table.typeRef := by
  simp [isType]

namespace Module

variable {m : Module} {t : TypeDef} {name : String}

/-- A definition with the token of a type is one. -/
theorem WellNumbered.exists_type (h : m.WellNumbered) {token : Token}
    (hmem : token ∈ m.allTypes.flatMap TypeDef.definedTokens) (htable : token.table = Table.typeDef) :
    ∃ t ∈ m.allTypes, t.token = token := by
  obtain ⟨t, ht, hdefined⟩ := List.mem_flatMap.1 hmem
  rw [TypeDef.definedTokens_eq] at hdefined
  rcases List.mem_cons.1 hdefined with rfl | hmember
  · exact ⟨t, ht, rfl⟩
  · obtain ⟨x, hx, rfl⟩ := List.mem_map.1 hmember
    exact absurd ((h.members t ht x hx).symm.trans htable) x.table_ne_typeDef

theorem typeName?_of_not_isType {token : Token} (h : ¬ token.isType) : m.typeName? token = none := by
  obtain ⟨hdefinition, hreference⟩ := Token.not_isType_iff.1 h
  rw [typeName?, if_neg hdefinition, if_neg hreference]

theorem mem_walk_of_findTypeNamed? (h : m.findTypeNamed? name = some t) : (t, name) ∈ m.walk := by
  obtain ⟨⟨t, fullName⟩, hentry, rfl⟩ := Option.map_eq_some_iff.1 h
  obtain rfl : fullName = name := by simpa using List.find?_some hentry
  exact List.mem_of_find?_eq_some hentry

theorem WellNumbered.table_mem_definitions (h : m.WellNumbered) {token : Token}
    (hmem : token ∈ m.allTypes.flatMap TypeDef.definedTokens) : token.table ∈ Table.definitions := by
  obtain ⟨t, ht, hdefined⟩ := List.mem_flatMap.1 hmem
  rw [TypeDef.definedTokens_eq] at hdefined
  rcases List.mem_cons.1 hdefined with rfl | hmember
  · rw [h.types t ht]
    decide
  · obtain ⟨x, hx, rfl⟩ := List.mem_map.1 hmember
    rw [h.members t ht x hx]
    exact Member.table_mem_definitions x

end Module

/-- Whether the text that a token has among names of types does not show its row: it is that of a type, or the
same in all modules. -/
def Token.Named (token : Token) : Prop := token.isType ∨ Substitution.isShared token

instance (token : Token) : Decidable token.Named :=
  inferInstanceAs (Decidable (token.isType ∨ Substitution.isShared token))

/-- The only input of a module by itself is that module. -/
theorem ModuleSet.getElem?_alone {m : LoadedModule} {input : Nat} {module : Module}
    (h : (alone m).inputs[input]? = some module) : input = 0 ∧ module = m.module := by
  have hone : [m.module][input]? = some module := h
  obtain ⟨hlt, rfl⟩ := List.getElem?_eq_some_iff.1 hone
  exact ⟨Nat.lt_one_iff.1 hlt, by simp⟩

namespace Importing

variable {l : Linkage} {source : Nat} {m : Module} {token : Token}

/-- A token of another kind stands for no type. -/
theorem inputType?_of_not_isType (h : ¬ token.isType) : inputType? l source token = none := by
  obtain ⟨hdefinition, hreference⟩ := Token.not_isType_iff.1 h
  rw [inputType?, if_neg hdefinition, if_neg hreference]

/-- A reference that leads to another module stands for no type of an input. -/
theorem inputType?_foreign (hm : l.set.inputs[source]? = some m) (hwell : m.WellNumbered) {row : TypeRef}
    (hrow : row ∈ m.typeRefs) {n : Nat} {root : Option Nat} {name : String}
    (hchain : Chain m.typeRefs n row root name)
    (hforeign : inputOf? l source (root.bind (m.references[·]?)) = none) :
    inputType? l source row.token = none := by
  have htable := hwell.typeRefs row hrow
  have hne : ¬ Table.typeRef = Table.typeDef := by decide
  rw [inputType?, htable, if_neg hne, if_pos rfl, ModuleSet.source?_of_getElem? hm]
  simp [Module.typeRefTarget?_of_chain hwell.identified.nodup_typeRefs hrow hchain, hforeign]

end Importing

namespace Relocation

open Shape ImportTables Importing

/-! ## What tokens stand for -/

/-- What a token of a module stands for, and in the output its counterpart: the same type of the module, a
type of another module that has the same name, or nothing that is a type. -/
inductive Stands (m : LoadedModule) (p : Policy) (out : Module) (tables : ImportTables) (token new : Token) : Prop
  | declared {t : TypeDef} {name : String} (ht : (t, name) ∈ m.module.walk)
      (hname : m.module.typeName? token = some name)
      (htype : inputType? (.ofSet (.alone m) p) 0 token = some (0, t))
      (hnew : new = (written (.ofSet (.alone m) p) tables.substitution 0 t).token)
  | referenced {row : TypeRef} {n index : Nat} {name : String} {identity : Identity} (hrow : row ∈ out.typeRefs)
      (hchain : Chain out.typeRefs n row (some index) name) (hidentity : out.references[index]? = some identity)
      (hforeign : (ModuleSet.alone m).inputIndex? identity.name = none)
      (hname : m.module.typeName? token = some name) (htype : inputType? (.ofSet (.alone m) p) 0 token = none)
      (hnew : new = row.token)
  | untyped (htoken : ¬ token.isType) (hnew : ¬ new.isType)

namespace Renumbered

variable {m : LoadedModule} {p : Policy} {plan : Plan} {out : Module} {rs : List Redirect}
  {sub₀ sub : Substitution} {a : Allocator} {tables : ImportTables}
  (h : Renumbered m p plan out rs sub₀ sub a tables)

include h

theorem types_eq : out.types = m.module.types.map (written (.ofSet (.alone m) p) tables.substitution 0) := by
  rw [h.types, map_snd_shapesOf, imageAll_eq, ownAll_eq, List.map_map]
  rfl

theorem walk_eq : out.walk = m.module.walk.map fun entry =>
    (written (.ofSet (.alone m) p) tables.substitution 0 entry.1, entry.2) := by
  rw [Module.walk, h.types_eq, Module.walk, List.map_flatMap, List.flatMap_map]
  exact List.flatMap_congr fun t _ => walk_written t

theorem stands_declared {token : Token} {t : TypeDef} {name : String} (ht : (t, name) ∈ m.module.walk)
    (hname : m.module.typeName? token = some name)
    (hdenotes : Denotes (.alone m) 0 token ⟨0, t⟩) {new : Token}
    (hnew : tables.substitution.get? ⟨0, t.token⟩ = some new) : Stands m p out tables token new := by
  have hmem : t ∈ m.module.allTypes := m.module.map_walk ▸ List.mem_map_of_mem ht
  have hshared : ¬ Substitution.isShared t.token := by
    refine Substitution.not_isShared ?_
    rw [h.numbered.types t hmem]
    decide
  refine .declared ht hname ((inputType?_eq_some_iff (t := ⟨0, t⟩) h.pass.numbered rfl).2 hdenotes) ?_
  rw [token_written, Substitution.counterpart_of_get? hshared hnew]

/-- A definition stands for a type if it is one. -/
theorem stands_of_definition {token new : Token}
    (hmem : token ∈ m.module.allTypes.flatMap TypeDef.definedTokens)
    (hnew : tables.substitution.get? ⟨0, token⟩ = some new) : Stands m p out tables token new := by
  have hmodule : (ModuleSet.alone m).inputs[0]? = some m.module := rfl
  by_cases htable : token.table = Table.typeDef
  · obtain ⟨t, ht, rfl⟩ := h.numbered.exists_type hmem htable
    have hwalk := ht
    rw [← m.module.map_walk] at hwalk
    obtain ⟨⟨t, name⟩, hentry, rfl⟩ := List.mem_map.1 hwalk
    exact h.stands_declared hentry (h.numbered.typesNumbered.typeName?_of_mem_walk hentry)
      (.definition hmodule ht rfl) hnew
  · have hdefinition := h.numbered.table_mem_definitions hmem
    have hkind := table_definition h.pass.numbered h.counterparts h.accounted h.closed rfl hdefinition
      (Substitution.resolve_of_get? (Substitution.not_isShared hdefinition) hnew)
    have hreference : token.table ≠ Table.typeRef := by
      rintro heq
      rw [heq] at hdefinition
      exact absurd hdefinition (by decide)
    exact .untyped (Token.not_isType_iff.2 ⟨htable, hreference⟩)
      (Token.not_isType_iff.2 (hkind ▸ ⟨htable, hreference⟩))

theorem stands_of_typeRef {row : TypeRef} (hrow : row ∈ m.module.typeRefs) {new : Token}
    (hnew : tables.substitution.get? ⟨0, row.token⟩ = some new) : Stands m p out tables row.token new := by
  have hmodule : (ModuleSet.alone m).inputs[0]? = some m.module := rfl
  cases h.bound.wired.typeRefs 0 m.module rfl row hrow new hnew with
  | @definition n root name input target type hchain hinput htarget htype hnew =>
    obtain ⟨rfl, rfl⟩ := ModuleSet.getElem?_alone htarget
    exact h.stands_declared (Module.mem_walk_of_findTypeNamed? htype)
      (h.numbered.typesNumbered.typeName?_of_chain hrow hchain)
      (.reference hmodule hrow rfl hchain ((leadsTo_iff hmodule).2 hinput) hmodule htype) hnew
  | @reference n root name identity hchain hidentity hinput hrefers =>
    obtain ⟨row', hrow', rfl, n', index, other, hchain', hother, -⟩ := hrefers
    refine .referenced (h.typeRefs ▸ hrow') (h.typeRefs ▸ hchain') (h.references ▸ hother) ?_
      (h.numbered.typesNumbered.typeName?_of_chain hrow hchain)
      (inputType?_foreign hmodule h.numbered hrow hchain (hidentity ▸ hinput)) rfl
    exact (h.bound.wired.rows rfl).foreign other (List.mem_of_getElem? hother)

theorem stands_of_memberRef {r : MemberRef} (hr : r ∈ m.module.memberRefs) {new : Token}
    (hnew : tables.substitution.get? ⟨0, r.token⟩ = some new) : Stands m p out tables r.token new := by
  have htable := h.numbered.memberRefs r hr
  have huntyped : ∀ token : Token, token.table = Table.memberRef → ¬ token.isType := by
    intro token heq
    exact Token.not_isType_iff.2 (heq ▸ by decide)
  refine .untyped (huntyped _ htable) ?_
  cases h.bound.wired.memberRefs 0 m.module rfl r hr new hnew with
  | @definition input type token hsearch hnew =>
    obtain ⟨hdeclares, hlookup⟩ := memberSearch_found hsearch
    rw [TypeDef.lookup_memberKeys] at hlookup
    obtain ⟨x, hx, rfl⟩ := Option.map_eq_some_iff.1 hlookup
    have hdeclared : (ModuleSet.alone m).DeclaresMember ⟨input, x⟩ :=
      ⟨type, hdeclares, List.mem_of_find?_eq_some hx⟩
    have hkind := h.pass.numbered.table_eq hdeclared
    have hdefinition : x.token.table ∈ Table.definitions := hkind ▸ Member.table_mem_definitions x
    have hsame := table_definition h.pass.numbered h.counterparts h.accounted h.closed hdeclares.isInput
      hdefinition hnew
    rw [← hsame] at hkind hdefinition
    exact Token.not_isType_iff.2 ⟨hkind ▸ x.table_ne_typeDef, fun heq =>
      absurd (heq ▸ hdefinition : Table.typeRef ∈ Table.definitions) (by decide)⟩
  | reference _ hrow htoken =>
    exact huntyped _ (htoken ▸ h.memberTokens.table_eq (h.memberRefs ▸ List.mem_map_of_mem hrow))

/-- Whatever has a counterpart stands for what its counterpart stands for. -/
theorem stands {token new : Token} (hnew : tables.substitution.resolve 0 token = .ok new) :
    Stands m p out tables token new := by
  have hmodule : (ModuleSet.alone m).inputs[0]? = some m.module := rfl
  rcases Substitution.resolve_eq_ok hnew with ⟨hshared, rfl⟩ | ⟨hshared, hget⟩
  · have huntyped : ¬ new.isType := by
      rcases Substitution.table_of_isShared hshared with htable | htable
      · exact Token.not_isType_iff.2 (htable ▸ by decide)
      · exact Token.not_isType_iff.2 (htable ▸ by decide)
    exact .untyped huntyped huntyped
  · rcases h.closed.added _ _ hget with hstart | himports
    · obtain ⟨m', hm', hmem⟩ := ModuleSet.mem_keys.1 (h.settled.declared _ new hstart)
      obtain rfl := Option.some.inj (hmodule.symm.trans hm')
      exact h.stands_of_definition hmem hget
    · obtain ⟨m', hm', hmem⟩ := himports rfl
      obtain rfl := Option.some.inj (hmodule.symm.trans hm')
      rcases hmem with htype | hmember
      · obtain ⟨row, hrow, rfl⟩ := List.mem_map.1 htype
        exact h.stands_of_typeRef hrow hget
      · obtain ⟨r, hr, rfl⟩ := List.mem_map.1 hmember
        exact h.stands_of_memberRef hr hget

/-! ## The same in the output -/

theorem typeName?_eq {token new : Token} (hnew : tables.substitution.resolve 0 token = .ok new) :
    out.typeName? new = m.module.typeName? token := by
  cases h.stands hnew with
  | declared ht hname _ hnew =>
    have hentry := h.walk_eq ▸ List.mem_map_of_mem ht
    rw [hnew, hname, h.wellNumbered.typesNumbered.typeName?_of_mem_walk hentry]
  | referenced hrow hchain _ _ hname _ hnew =>
    rw [hnew, hname, h.wellNumbered.typesNumbered.typeName?_of_chain hrow hchain]
  | untyped htoken hnew =>
    rw [Module.typeName?_of_not_isType htoken, Module.typeName?_of_not_isType hnew]

/-- A named token has the same name in the output. -/
theorem name_eq {token new : Token} (hnew : tables.substitution.resolve 0 token = .ok new)
    (hnamed : token.Named) : (NameTable.ofModule out).name new = (NameTable.ofModule m.module).name token := by
  rw [h.wellNumbered.typesNumbered.name_ofModule, h.numbered.typesNumbered.name_ofModule,
    Module.typeNameOrToken, Module.typeNameOrToken, h.typeName?_eq hnew]
  rcases hnamed with htype | hshared
  · cases h.stands hnew with
    | declared _ hname | referenced _ _ _ _ hname => rw [hname]; rfl
    | untyped htoken => exact absurd htype htoken
  · rw [Except.ok.inj (hnew.symm.trans (Substitution.resolve_of_isShared hshared))]

theorem inputIndex?_eq (path : Path) :
    (ModuleSet.alone ⟨path, out⟩).inputIndex? = (ModuleSet.alone m).inputIndex? := by
  have hname : out.name = m.module.name := congrArg Identity.name h.identity
  funext name
  have hone : (ModuleSet.alone ⟨path, out⟩).inputs = [out] := rfl
  have hmodule : (ModuleSet.alone m).inputs = [m.module] := rfl
  rw [ModuleSet.inputIndex?, ModuleSet.inputIndex?, hone, hmodule, List.findIdx?_singleton,
    List.findIdx?_singleton, hname]

/-- A token stands for the type that is written for the one that it stood for. -/
theorem inputType?_eq (path : Path) {token new : Token} (hnew : tables.substitution.resolve 0 token = .ok new) :
    inputType? (.ofSet (.alone ⟨path, out⟩) p) 0 new =
      (inputType? (.ofSet (.alone m) p) 0 token).map
        fun t => (0, written (.ofSet (.alone m) p) tables.substitution 0 t.2) := by
  have hmodule : (ModuleSet.alone ⟨path, out⟩).inputs[0]? = some out := rfl
  have hset : (ModuleSet.alone ⟨path, out⟩).WellNumbered := wellNumbered_alone h.wellNumbered
  cases h.stands hnew with
  | @declared t name ht _ htype hnew =>
    have hentry := h.walk_eq ▸ List.mem_map_of_mem ht
    have hmem : written (.ofSet (.alone m) p) tables.substitution 0 t ∈ out.allTypes :=
      out.map_walk ▸ List.mem_map_of_mem hentry
    rw [htype]
    exact (inputType?_eq_some_iff (t := ⟨0, _⟩) hset rfl).2 (.definition hmodule hmem hnew.symm)
  | @referenced row n index name identity hrow hchain hidentity hforeign _ htype hnew =>
    rw [htype, hnew]
    refine inputType?_foreign hmodule h.wellNumbered hrow hchain ?_
    rw [Option.bind_some, hidentity]
    exact (congrFun (h.inputIndex?_eq path) identity.name).trans hforeign
  | untyped htoken hnew => rw [inputType?_of_not_isType htoken, inputType?_of_not_isType hnew]; rfl

end Renumbered

end Relocation

end ModuleLinker
