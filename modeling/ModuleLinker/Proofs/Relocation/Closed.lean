import ModuleLinker.Proofs.Member
import ModuleLinker.Proofs.Relocation.Output
import ModuleLinker.Proofs.Relocation.References

namespace ModuleLinker

/-! # Closed relocation

The output of a relocation is closed: what its types and references use is a token shared by all
modules, a definition of the output, or one of its rows.
-/

/-! ## What the check of a module's closure says

The check goes through the uses of tokens one by one and stops at the first that names nothing. It
answers exactly for modules in which every use names something.
-/

namespace Module

/-- Whether a token may be used in the module. -/
def Names (m : Module) (t : Token) : Prop := Substitution.isShared t ∨ t ∈ m.definedTokens

/-- Whether the scope of a type reference leads to something. -/
def Leads (m : Module) : Scope → Prop
  | .reference index => index.toNat < m.references.length
  | .enclosing outer => m.Names outer
  | .here => True

/-- Every token that the module uses names something in it. -/
structure IsClosed (m : Module) : Prop where
  typeRefs : ∀ r ∈ m.typeRefs, m.Leads r.scope
  memberRefs : ∀ r ∈ m.memberRefs, ∀ t ∈ r.parent :: r.signature.tokens, m.Names t
  types : ∀ type ∈ m.allTypes, ∀ t ∈ type.tokens, m.Names t
  attributes : ∀ a ∈ m.attributes, m.Names a.type
  entryPoint : ∀ t ∈ m.entryPoint, t.table = Table.method ∧ m.Names t

variable {m : Module}

theorem checkUse_ok {use : TokenUse} : checkUse m.definedTokens use = .ok () ↔ m.Names use.1 := by
  rcases use with ⟨t, context⟩
  rw [checkUse, Names]
  split
  case isTrue h => exact iff_of_true rfl (by simpa using h)
  case isFalse h => exact iff_of_false nofun (by simpa using h)

theorem checkTypeRef_ok {r : TypeRef} :
    m.checkTypeRef m.definedTokens r = .ok () ↔ m.Leads r.scope := by
  rw [checkTypeRef]
  rcases r.scope with index | outer | _
  · dsimp only [Leads]
    split
    case isTrue h => exact iff_of_false nofun (by omega)
    case isFalse h => exact iff_of_true rfl (by omega)
  · exact checkUse_ok
  · exact iff_of_true rfl trivial

theorem checkEntryPoint_ok : m.checkEntryPoint m.definedTokens = .ok () ↔
    ∀ t ∈ m.entryPoint, t.table = Table.method ∧ m.Names t := by
  rw [checkEntryPoint]
  rcases m.entryPoint with _ | t
  · exact iff_of_true rfl nofun
  · dsimp only
    split
    case isTrue h => exact iff_of_false nofun fun hall => h (hall t rfl).1
    case isFalse h =>
      rw [checkUse_ok]
      simp [not_not.1 h]

theorem memberUses_ok : m.memberUses.forM (checkUse m.definedTokens) = .ok () ↔
    ∀ r ∈ m.memberRefs, ∀ t ∈ r.parent :: r.signature.tokens, m.Names t := by
  rw [forM_list_ok]
  simp only [checkUse_ok, memberUses, List.forall_mem_flatMap, List.forall_mem_map]

theorem typeUses_ok : m.typeUses.forM (checkUse m.definedTokens) = .ok () ↔
    ∀ type ∈ m.allTypes, ∀ t ∈ type.tokens, m.Names t := by
  rw [forM_list_ok, ← map_walk]
  simp only [checkUse_ok, typeUses, List.forall_mem_flatMap, List.forall_mem_map]

theorem attributeUses_ok : m.attributeUses.forM (checkUse m.definedTokens) = .ok () ↔
    ∀ a ∈ m.attributes, m.Names a.type := by
  rw [forM_list_ok]
  simp only [checkUse_ok, attributeUses, List.forall_mem_map]

/-- The check accepts the closed modules and no others. -/
theorem checkClosed_ok : m.checkClosed = .ok () ↔ m.IsClosed := by
  have htypeRefs : m.typeRefs.forM (m.checkTypeRef m.definedTokens) = .ok () ↔
      ∀ r ∈ m.typeRefs, m.Leads r.scope := by
    rw [forM_list_ok]
    simp only [checkTypeRef_ok]
  unfold checkClosed
  -- five checks, one after another
  rw [andThen_eq_ok, andThen_eq_ok, andThen_eq_ok, andThen_eq_ok, htypeRefs, memberUses_ok, typeUses_ok,
    attributeUses_ok, checkEntryPoint_ok]
  constructor
  · rintro ⟨htypeRefs, hmemberRefs, htypes, hattributes, hentry⟩
    exact ⟨htypeRefs, hmemberRefs, htypes, hattributes, hentry⟩
  · rintro ⟨htypeRefs, hmemberRefs, htypes, hattributes, hentry⟩
    exact ⟨htypeRefs, hmemberRefs, htypes, hattributes, hentry⟩

end Module

/-! ## The output of a relocation -/

namespace Relocation

open ImportTables

variable {set : ModuleSet} {plan : Plan} {policy : Policy} {l : Linkage} {shapes : List Shape}
  {redirects : List Redirect} {start : Substitution} {tables : ImportTables}

/-- What a definition stands for is defined by the types as they are written. -/
theorem mem_definedTokens (hnumbered : Shape.Numbered shapes redirects start)
    (haccounted : Shape.Accounted shapes redirects) (hclosed : tables.Closed set start)
    {k : SourceToken} {t : Token} (hk : start.get? k = some t) :
    ∃ s ∈ Shape.withinAll shapes, t ∈ (s.image l tables.substitution).definedTokens := by
  obtain ⟨k', hkey, hk', -⟩ := hnumbered.exists_key haccounted hk
  have hshared := Substitution.not_isShared (Shape.table_mem_definitions haccounted hkey)
  obtain ⟨s, hs, hmem⟩ := List.mem_flatMap.1 hkey
  refine ⟨s, hs, ?_⟩
  rw [Shape.definedTokens_image]
  exact List.mem_map.2 ⟨k', hmem, Substitution.counterpart_of_get? hshared (hclosed.kept k' t hk')⟩

/-- The counterpart of a definition is one of its kind, as no token of a definition is imported. -/
theorem table_definition (hset : set.WellNumbered) (hnumbered : Shape.Numbered shapes redirects start)
    (haccounted : Shape.Accounted shapes redirects) (hclosed : tables.Closed set start) {source : Nat}
    (hsource : set.isInput source) {t new : Token} (ht : t.table ∈ Table.definitions)
    (hnew : tables.substitution.resolve source t = .ok new) : new.table = t.table := by
  obtain ⟨hcontra, -⟩ | ⟨-, hget⟩ := Substitution.resolve_eq_ok hnew
  · exact absurd hcontra (Substitution.not_isShared ht)
  · -- what the import added is a reference, which is of another table
    rcases hclosed.added _ _ hget with hstart | himports
    · exact hnumbered.table_eq (k := ⟨source, t⟩) haccounted hstart
    · have htable : t.table = Table.typeRef ∨ t.table = Table.memberRef := himports.table hset hsource
      rcases htable with htable | htable
      · exact absurd (htable ▸ ht : Table.typeRef ∈ Table.definitions) (by decide)
      · exact absurd (htable ▸ ht : Table.memberRef ∈ Table.definitions) (by decide)

/-- What names something while references are imported names something in the output. -/
theorem names_of_names (hnumbered : Shape.Numbered shapes redirects start)
    (haccounted : Shape.Accounted shapes redirects) (hclosed : tables.Closed set start) {out : Module}
    (htypes : out.allTypes = (Shape.withinAll shapes).map (Shape.image l tables.substitution))
    (htypeRefs : out.typeRefs = tables.typeRefs) (hmemberRefs : out.memberRefs = tables.memberRefs)
    {t : Token} (ht : tables.Names start t) : out.Names t := by
  rw [Module.Names, Module.definedTokens_eq, htypes, htypeRefs, hmemberRefs, List.mem_append,
    List.mem_append]
  rcases ht with hshared | ⟨k, hk⟩ | htype | hmember
  · exact .inl hshared
  · obtain ⟨s, hs, hmem⟩ := mem_definedTokens hnumbered haccounted hclosed hk
    exact .inr (.inl (.inl (List.mem_flatMap.2 ⟨_, List.mem_map_of_mem hs, hmem⟩)))
  · exact .inr (.inl (.inr htype))
  · exact .inr (.inr hmember)

/-- The output of a relocation passes the check of its closure. -/
theorem run_checkClosed (hset : set.WellNumbered)
    (hentry : ∀ t ∈ set.primary.module.entryPoint, t.table = Table.method) {log : Log} {out : Module}
    (h : ((run set plan policy).run.run log).1 = .ok out) : out.checkClosed = .ok () := by
  obtain ⟨shapes, sub, a, attributes, tables, log', hlayout, himport, hwritten, hresolved,
    hreferences, htypeRefs, hmemberRefs, hattributes⟩ := run_ok h
  have hset' : (Linkage.ofSet set policy).set.WellNumbered := hset
  obtain ⟨placed, redirects, rfl, hbuilt, hnumbered⟩ := layOut_ok hset' hlayout
  have haccounted := hbuilt.accounted hset'
  obtain ⟨hclosed, -, hattributeTypes⟩ := importAll_keeps plan (.initial _ sub a) _ _ himport
  obtain ⟨-, hshapes⟩ := Shape.writeAll_ok _ hwritten
  obtain ⟨hentryPoint, hresolves⟩ :=
    mapM_option_ok (fun _ _ => token_ok (tables.substitution.follows_resolve 0)) hresolved
  have htypes := allTypes_eq hwritten
  have hnames : ∀ t, tables.Names sub t → out.Names t := fun t ht =>
    names_of_names hnumbered haccounted hclosed htypes htypeRefs hmemberRefs ht
  have hleads : ∀ scope, tables.Leads sub scope → out.Leads scope := by
    rintro (index | outer | _) h
    · rwa [Module.Leads, hreferences]
    · exact hnames outer h
    · trivial
  -- the rows are closed tables, and everything else was resolved under them
  refine Module.checkClosed_ok.2 ⟨?_, ?_, ?_, ?_, ?_⟩
  · intro r hr
    exact hleads r.scope (hclosed.typeRefs r (htypeRefs ▸ hr))
  · intro r hr t ht
    exact hnames t (hclosed.names_memberRefs (hmemberRefs ▸ hr) ht)
  · rw [htypes, List.forall_mem_map]
    intro s hs
    exact (hshapes s hs).tokens_image fun _ _ _ hnew => hnames _ (hclosed.names_of_resolve hnew)
  · intro b hb
    exact hnames b.type (hattributeTypes b (hattributes ▸ hb))
  · rw [hentryPoint]
    intro u hu
    obtain ⟨t, ht, rfl⟩ := Option.mem_map.1 hu
    have hnew := hresolves t ht
    have htable : t.table ∈ Table.definitions := by simp [hentry t ht, Table.definitions]
    exact ⟨(table_definition hset hnumbered haccounted hclosed rfl htable hnew).trans (hentry t ht),
      hnames _ (hclosed.names_of_resolve hnew)⟩

theorem run_checkClosed_boxes : ∃ out, ((run boxes boxPlan unionPolicy).run.run []).1 = .ok out ∧
    out.checkClosed = .ok () := by
  obtain ⟨out, h⟩ := run_boxes
  exact ⟨out, h, run_checkClosed (by decide) (by decide) h⟩

end Relocation

end ModuleLinker
