import ModuleLinker.Proofs.Relocation.Importing

namespace ModuleLinker

/-! # Imported references

Every operation of an import keeps the tables closed, and the token that it answers names something.
-/

namespace Importing

open ImportTables

variable {set : ModuleSet} {start : Substitution} {tables : ImportTables} {l : Linkage} {source : Nat}

/-- The answer names something. -/
abbrev KeepsNames (set : ModuleSet) (start : Substitution) (tables : ImportTables)
    (x : Importing Token) : Prop :=
  Keeps set start tables x fun tables' t => tables'.Names start t

/-! ## Rows of the output -/

theorem module_keeps (l : Linkage) (source : Nat) : Keeps set start tables (module l source)
    fun _ m => l.set.source? source = some m := by
  unfold module
  split
  case h_1 m hm => exact .pure hm
  case h_2 => exact .unbound _

/-- A known counterpart names something, and where there is none the definitions have none either. -/
theorem known_keeps (k : SourceToken) {f : Option Token → Importing Token}
    (hnone : start.get? k = none → KeepsNames set start tables (f none))
    (hsome : ∀ t, tables.Names start t → KeepsNames set start tables (f (some t))) :
    KeepsNames set start tables (known? k >>= f) := by
  refine .get fun hclosed => ?_
  rcases hget : tables.substitution.get? k with _ | t
  · refine hnone ?_
    -- closed tables have all counterparts of definitions
    rcases hstart : start.get? k with _ | t
    · rfl
    · exact nomatch hget.symm.trans (hclosed.kept k t hstart)
  · exact hsome t (hclosed.counterparts k t hget)

/-- A counterpart that has been found is set, where the definitions have none. -/
theorem keep_keeps {k : SourceToken} (hk : start.get? k = none) (himports : set.Imports k) {t : Token}
    (ht : tables.Names start t) : KeepsNames set start tables (do keep k t; return t) := by
  refine .bind (p := fun tables' _ => tables'.Names start t) ?_ fun _ _ _ h => .pure h
  exact .change (fun hclosed => hclosed.insert hk himports ht)
    ⟨Nat.le_refl _, fun _ h => h, fun _ h => h⟩ ht

theorem fresh_keeps (table : UInt8) : Keeps set start tables (fresh table) fun _ _ => True := by
  refine .get fun _ => ?_
  split
  case h_1 =>
    refine .bind (p := fun _ _ => True) ?_ fun _ _ _ _ => .pure trivial
    exact .grow rfl ⟨Nat.le_refl _, fun _ h => h, fun _ h => h⟩ (fun _ h => .inl h)
      (.inl rfl) trivial
  case h_2 => exact .throw _

/-- The index that a module is referred to by is one of the references. -/
theorem reference_keeps (identity : Identity) : Keeps set start tables (reference identity)
    fun tables' index => index.toNat < tables'.references.length := by
  refine .get fun _ => ?_
  dsimp only
  split
  case h_1 index hfound =>
    -- the index has 32 bits, and wrapping around makes it no larger
    have hindex := (List.findIdx?_eq_some_iff_findIdx_eq.1 hfound).1
    exact .pure (Nat.lt_of_le_of_lt (Nat.mod_le _ _) hindex)
  case h_2 =>
    refine .bind (.grow rfl ⟨?_, fun _ h => h, fun _ h => h⟩ (fun _ h => .inl h) (.inl rfl) ?_)
      fun _ _ _ h => .pure h
    · simp
    · refine Nat.lt_of_le_of_lt (Nat.mod_le _ _) ?_
      simp

theorem typeRefRow_keeps (scope : Scope) (hscope : tables.Leads start scope)
    (namespaceName name : String) : KeepsNames set start tables (typeRefRow scope namespaceName name) := by
  refine .get fun _ => ?_
  dsimp only
  split
  case h_1 row hfound => exact .pure (names_typeRef (List.mem_of_find?_eq_some hfound))
  case h_2 =>
    refine (fresh_keeps Table.typeRef).bind fun token tables' hgrows _ => ?_
    refine .bind (p := fun tables'' _ => tables''.Names start token)
      (.grow rfl ⟨Nat.le_refl _, ?_, fun _ h => h⟩ ?_ (.inl rfl) ?_) fun _ _ _ h => .pure h
    · exact List.subset_append_left ..
    · intro r hr
      rcases List.mem_append.1 hr with hold | hnew
      · exact .inl hold
      · rcases List.mem_singleton.1 hnew with rfl
        exact .inr (hgrows.leads hscope)
    · exact names_typeRef (r := ⟨token, scope, namespaceName, name⟩)
        (List.mem_append_right _ List.mem_cons_self)

theorem memberRefRow_keeps {parent : Token} {signature : MemberSig}
    (htokens : ∀ t ∈ parent :: signature.tokens, tables.Names start t) (name : String) :
    KeepsNames set start tables (memberRefRow parent name signature) := by
  refine .get fun _ => ?_
  dsimp only
  split
  case h_1 row hfound => exact .pure (names_memberRef (List.mem_of_find?_eq_some hfound))
  case h_2 =>
    refine (fresh_keeps Table.memberRef).bind fun token tables' hgrows _ => ?_
    refine .bind (p := fun tables'' _ => tables''.Names start token)
      (.grow rfl ⟨Nat.le_refl _, fun _ h => h, ?_⟩ (fun _ h => .inl h) (.inr ⟨_, rfl, ?_⟩) ?_)
      fun _ _ _ h => .pure h
    · exact List.subset_append_left ..
    · exact fun t ht => hgrows.names (htokens t ht)
    · exact names_memberRef (r := ⟨token, parent, name, signature⟩)
        (List.mem_append_right _ List.mem_cons_self)

/-! ## Types -/

theorem definition_keeps (l : Linkage) (input : Nat) (fullName : String) :
    KeepsNames l.set start tables (definition l input fullName) := by
  refine (module_keeps l input).bind fun m _ _ _ => ?_
  split
  case h_1 => exact .unbound _
  case h_2 type _ =>
    exact known_keeps _ (fun _ => .unbound _) fun _ ht => .pure ht

theorem enclosedRows_keeps {outer : Token} (houter : tables.Names start outer) (names : List String) :
    KeepsNames l.set start tables (enclosedRows outer names) := by
  induction names generalizing tables outer with
  | nil => exact .pure houter
  | cons name rest ih =>
    exact (typeRefRow_keeps (.enclosing outer) houter "" name).bind fun _ _ _ hrow => ih hrow

theorem attributeType_keeps (l : Linkage) (fullName : String) :
    KeepsNames l.set start tables (attributeType l fullName) := by
  refine (module_keeps l _).bind fun m _ _ _ => ?_
  split
  case h_1 input _ => exact definition_keeps l input fullName
  case h_2 =>
    refine (reference_keeps m.identity).bind fun index _ _ hindex => ?_
    split
    case h_1 => exact .pure (.inl (by decide))
    case h_2 outer inner _ =>
      refine (typeRefRow_keeps (.reference index) hindex _ _).bind fun _ _ _ hrow => ?_
      exact enclosedRows_keeps hrow inner

/-- A type reference keeps the tables closed if the references around it do. -/
theorem typeRefFrom_keeps (source : Nat)
    {enclosing : Option (Token → Importing Token)}
    (henclosing : ∀ f ∈ enclosing, ∀ tables t, KeepsNames l.set start tables (f t)) (token : Token) :
    KeepsNames l.set start tables (typeRefFrom l source enclosing token) := by
  refine known_keeps _ (fun hnone => ?_) fun _ ht => .pure ht
  refine (module_keeps l source).bind fun m _ _ hm => ?_
  split
  case h_2 => exact .unbound _
  case h_1 row hrow =>
  -- in an input, a token that has a row is one of a reference
  have himports := ModuleSet.imports_typeRef hm hrow
  split
  case h_2 => exact .unbound _
  case h_1 fullName _ =>
  dsimp only
  split
  case h_1 input _ => exact (definition_keeps l input fullName).bind fun _ _ _ => keep_keeps hnone himports
  case h_2 =>
    split
    case h_1 => exact (attributeType_keeps l fullName).bind fun _ _ _ => keep_keeps hnone himports
    case h_2 =>
      split
      case h_1 => exact Keeps.bind (.unbound _) fun _ _ _ => keep_keeps hnone himports
      case h_2 identity _ =>
        refine (reference_keeps identity).bind fun index _ _ hindex => ?_
        exact (typeRefRow_keeps (.reference index) hindex _ _).bind fun _ _ _ => keep_keeps hnone himports
    case h_3 outer _ _ =>
      split
      case h_1 =>
        refine (henclosing _ rfl _ outer).bind fun outer' _ _ houter => ?_
        exact (typeRefRow_keeps (.enclosing outer') houter _ _).bind fun _ _ _ => keep_keeps hnone himports
      case h_2 => exact Keeps.bind (.unbound _) fun _ _ _ => keep_keeps hnone himports
    case h_4 => exact (definition_keeps l source fullName).bind fun _ _ _ => keep_keeps hnone himports

/-- The induction is on the steps that are left of the chain of enclosing references. -/
theorem typeRefWithin_keeps (source steps : Nat) (token : Token) :
    KeepsNames l.set start tables (typeRefWithin l source steps token) := by
  induction steps generalizing tables token with
  | zero =>
    refine typeRefFrom_keeps source ?_ token
    rintro _ ⟨⟩
  | succ steps ih =>
    refine typeRefFrom_keeps source ?_ token
    rintro _ ⟨⟩ _ t
    exact ih t

theorem typeRef_keeps (source : Nat) (token : Token) :
    KeepsNames l.set start tables (typeRef l source token) :=
  (module_keeps l source).bind fun m _ _ _ => typeRefWithin_keeps source m.typeRefs.length token

theorem type_keeps (source : Nat) (token : Token) :
    KeepsNames l.set start tables (type l source token) := by
  refine known_keeps _ (fun hnone => ?_) fun _ ht => .pure ht
  dsimp only
  split
  case isTrue => exact typeRef_keeps source token
  case isFalse =>
  split
  case isTrue houtside =>
    -- the module that attributes come from is no input
    have himports : l.set.Imports ⟨source, token⟩ := fun hinput => absurd hinput houtside.2
    refine (module_keeps l source).bind fun m _ _ _ => ?_
    split
    case h_2 => exact .unbound _
    case h_1 fullName _ =>
      exact (attributeType_keeps l fullName).bind fun _ _ _ => keep_keeps hnone himports
  case isFalse =>
    refine .get fun hclosed => ?_
    split
    case h_1 hresolved => exact .pure (hclosed.names_of_resolve hresolved)
    case h_2 => exact .throw _

/-! ## Members -/

mutual

/-- Mapping the tokens of a signature gives one whose tokens name something, if mapping one token
does. -/
theorem typeSig_keeps {f : Token → Importing Token}
    (hf : ∀ tables t, KeepsNames l.set start tables (f t)) (tables : ImportTables) (s : TypeSig) :
    Keeps l.set start tables (s.mapTokens f) fun tables' s' =>
      ∀ t ∈ s'.tokens, tables'.Names start t := by
  cases s with
  | primitive p => exact .pure nofun
  | classType t => exact (hf tables t).bind fun _ _ _ ht => .pure (List.forall_mem_singleton.2 ht)
  | valueType t => exact (hf tables t).bind fun _ _ _ ht => .pure (List.forall_mem_singleton.2 ht)
  | array s => exact (typeSig_keeps hf tables s).bind fun _ _ _ hs => .pure hs
  | byRef s => exact (typeSig_keeps hf tables s).bind fun _ _ _ hs => .pure hs
  | pointer s => exact (typeSig_keeps hf tables s).bind fun _ _ _ hs => .pure hs
  | typeParam n => exact .pure nofun
  | methodParam n => exact .pure nofun
  | instantiation base arguments =>
    refine (typeSig_keeps hf tables base).bind fun _ tables' _ hbase => ?_
    refine (typeSigs_keeps hf tables' arguments).bind fun _ _ hgrows harguments => ?_
    exact .pure (List.forall_mem_append.2 ⟨fun t ht => hgrows.names (hbase t ht), harguments⟩)

theorem typeSigs_keeps {f : Token → Importing Token}
    (hf : ∀ tables t, KeepsNames l.set start tables (f t)) (tables : ImportTables) (ss : List TypeSig) :
    Keeps l.set start tables (TypeSig.mapTokensOf f ss) fun tables' ss' =>
      ∀ t ∈ TypeSig.tokensOf ss', tables'.Names start t := by
  cases ss with
  | nil => exact .pure nofun
  | cons s ss =>
    refine (typeSig_keeps hf tables s).bind fun _ tables' _ hs => ?_
    refine (typeSigs_keeps hf tables' ss).bind fun _ _ hgrows hss => ?_
    exact .pure (List.forall_mem_append.2 ⟨fun t ht => hgrows.names (hs t ht), hss⟩)

end

theorem memberSig_keeps {f : Token → Importing Token}
    (hf : ∀ tables t, KeepsNames l.set start tables (f t)) (s : MemberSig) :
    Keeps l.set start tables (s.mapTokens f) fun tables' s' =>
      ∀ t ∈ s'.tokens, tables'.Names start t := by
  cases s with
  | field s => exact (typeSig_keeps hf tables s).bind fun _ _ _ hs => .pure hs
  | method s =>
    have hmethod : Keeps l.set start tables (s.mapTokens f) fun tables' s' =>
        ∀ t ∈ s'.tokens, tables'.Names start t := by
      refine (typeSig_keeps hf tables s.result).bind fun _ tables' _ hresult => ?_
      refine (typeSigs_keeps hf tables' s.params).bind fun _ _ hgrows hparams => ?_
      exact .pure (List.forall_mem_append.2 ⟨fun t ht => hgrows.names (hresult t ht), hparams⟩)
    exact hmethod.bind fun _ _ _ hs => .pure hs

theorem externalMember_keeps (source : Nat) (r : MemberRef) :
    KeepsNames l.set start tables (externalMember l source r) := by
  refine (type_keeps source r.parent).bind fun parent _ _ hparent => ?_
  refine (memberSig_keeps (fun _ t => type_keeps source t) r.signature).bind
    fun signature _ hgrows hsignature => ?_
  exact memberRefRow_keeps (List.forall_mem_cons.2 ⟨hgrows.names hparent, hsignature⟩) r.name

/-- The induction is on the number of types that are left to search. -/
theorem mergedMember_keeps (source : Nat) (r : MemberRef) (fault : Unbound)
    (steps : Nat) (t : Nat × TypeDef) :
    KeepsNames l.set start tables (mergedMember l source r fault steps t) := by
  induction steps generalizing tables t with
  | zero => exact .unbound _
  | succ steps ih =>
    rcases t with ⟨input, type⟩
    rw [mergedMember]
    split
    case h_1 found _ =>
      refine .get fun hclosed => ?_
      split
      case h_1 hresolved => exact .pure (hclosed.names_of_resolve hresolved)
      case h_2 => exact .throw _
    case h_2 =>
      split
      case h_1 => exact .unbound _
      case h_2 =>
        split
        case h_1 next _ => exact ih next
        case h_2 => exact externalMember_keeps source r

theorem memberRef_keeps (source : Nat) (token : Token) :
    KeepsNames l.set start tables (memberRef l source token) := by
  refine known_keeps _ (fun hnone => ?_) fun _ ht => .pure ht
  refine (module_keeps l source).bind fun m _ _ hm => ?_
  split
  case h_2 => exact .unbound _
  case h_1 row hrow =>
  have himports := ModuleSet.imports_memberRef hm hrow
  dsimp only
  split
  case h_1 => exact (mergedMember_keeps source row _ _ _).bind fun _ _ _ => keep_keeps hnone himports
  case h_2 => exact (externalMember_keeps source row).bind fun _ _ _ => keep_keeps hnone himports

end Importing

/-! ## All references -/

namespace Relocation

open Importing

variable {start : Substitution} {tables : ImportTables} {l : Linkage}

theorem importModule_keeps (source : Nat) (m : Module) :
    Keeps l.set start tables (importModule l source m) fun _ _ => True := by
  refine .bind (p := fun _ _ => True) (.forM fun row _ tables => ?_) fun _ _ _ _ =>
    .forM fun row _ tables => ?_
  · exact (typeRef_keeps source row.token).bind fun _ _ _ _ => .pure trivial
  · exact (memberRef_keeps source row.token).bind fun _ _ _ _ => .pure trivial

theorem importAttribute_keeps (planned : PlannedAttribute) :
    Keeps l.set start tables (importAttribute l planned) fun tables' a => tables'.Names start a.type := by
  refine (module_keeps l _).bind fun m _ _ _ => ?_
  split
  case h_1 => exact .unbound _
  case h_2 a _ => exact (type_keeps _ a.type).bind fun _ _ _ ht => .pure ht

/-- The attributes that an import answers have types that name something. -/
theorem importAll_keeps (plan : Plan) :
    Keeps l.set start tables (importAll l plan) fun tables' attributes =>
      ∀ a ∈ attributes, tables'.Names start a.type := by
  refine .bind (p := fun _ _ => True) (.forM fun p _ tables => ?_) fun _ _ _ _ => ?_
  · exact importModule_keeps p.2 p.1
  · exact .mapM (fun _ _ _ hgrows ha => hgrows.names ha) fun planned _ _ =>
      importAttribute_keeps planned

end Relocation

end ModuleLinker
