import ModuleLinker.Proofs.Relocation.BoundTypes

namespace ModuleLinker

/-! # Imported references to members

Importing a reference to a member binds it, to the member where its search ends or to a row that spells
it. With all references of the inputs bound, an import has nothing left to fail with.
-/

/-! ## Signatures -/

section

variable {f : Token → ExceptT ε (StateM σ) Token} {resolve : σ → Token → Except ε Token}
  {holds : σ → Prop} {fails : ε → Prop}

/-- The second state has the property, and all answers of the first one. -/
structure Refines (holds : σ → Prop) (resolve : σ → Token → Except ε Token) (s s' : σ) : Prop where
  holds : holds s'
  answers : ∀ t u, resolve s t = .ok u → resolve s' t = .ok u

theorem Refines.refl {s : σ} (h : holds s) : Refines holds resolve s s := ⟨h, fun _ _ h => h⟩

theorem Refines.trans {s s' s'' : σ} (h : Refines holds resolve s s') (h' : Refines holds resolve s' s'') :
    Refines holds resolve s s'' :=
  ⟨h'.holds, fun t u hu => h'.answers t u (h.answers t u hu)⟩

namespace TypeSig

mutual

/-- Where each token is mapped to what the state after it answers, so is the type. -/
theorem mapTokens_ends (sig : TypeSig) (hf : ∀ t ∈ sig.tokens, ∀ s, holds s →
      Ends s (f t) (fun s' u => Refines holds resolve s s' ∧ resolve s' t = .ok u) fails)
    {s : σ} (hs : holds s) : Ends s (sig.mapTokens f)
      (fun s' sig' => Refines holds resolve s s' ∧ sig.mapTokens (resolve s') = .ok sig') fails := by
  cases sig with
  | primitive p => exact .pure ⟨.refl hs, rfl⟩
  | typeParam n => exact .pure ⟨.refl hs, rfl⟩
  | methodParam n => exact .pure ⟨.refl hs, rfl⟩
  | classType t =>
    refine (hf t List.mem_cons_self s hs).bind fun u s' h => .pure ⟨h.1, ?_⟩
    rw [mapTokens, h.2]
    rfl
  | valueType t =>
    refine (hf t List.mem_cons_self s hs).bind fun u s' h => .pure ⟨h.1, ?_⟩
    rw [mapTokens, h.2]
    rfl
  | array sig =>
    refine (mapTokens_ends sig hf hs).bind fun u s' h => .pure ⟨h.1, ?_⟩
    rw [mapTokens, h.2]
    rfl
  | byRef sig =>
    refine (mapTokens_ends sig hf hs).bind fun u s' h => .pure ⟨h.1, ?_⟩
    rw [mapTokens, h.2]
    rfl
  | pointer sig =>
    refine (mapTokens_ends sig hf hs).bind fun u s' h => .pure ⟨h.1, ?_⟩
    rw [mapTokens, h.2]
    rfl
  | instantiation base arguments =>
    obtain ⟨hbase, harguments⟩ := List.forall_mem_append.1 hf
    refine (mapTokens_ends base hbase hs).bind fun b s' h => ?_
    refine (mapTokensOf_ends arguments harguments h.1.holds).bind fun as s'' h' => ?_
    refine .pure ⟨h.1.trans h'.1, ?_⟩
    rw [mapTokens, mapTokens_refine h'.1.answers h.2]
    exact bind_eq_ok.2 ⟨_, rfl, bind_eq_ok.2 ⟨_, h'.2, rfl⟩⟩

theorem mapTokensOf_ends (sigs : List TypeSig) (hf : ∀ t ∈ tokensOf sigs, ∀ s, holds s →
      Ends s (f t) (fun s' u => Refines holds resolve s s' ∧ resolve s' t = .ok u) fails)
    {s : σ} (hs : holds s) : Ends s (mapTokensOf f sigs)
      (fun s' sigs' => Refines holds resolve s s' ∧ mapTokensOf (resolve s') sigs = .ok sigs') fails := by
  cases sigs with
  | nil => exact .pure ⟨.refl hs, rfl⟩
  | cons sig sigs =>
    obtain ⟨hsig, hsigs⟩ := List.forall_mem_append.1 hf
    refine (mapTokens_ends sig hsig hs).bind fun b s' h => ?_
    refine (mapTokensOf_ends sigs hsigs h.1.holds).bind fun as s'' h' => ?_
    refine .pure ⟨h.1.trans h'.1, ?_⟩
    rw [mapTokensOf, mapTokens_refine h'.1.answers h.2]
    exact bind_eq_ok.2 ⟨_, rfl, bind_eq_ok.2 ⟨_, h'.2, rfl⟩⟩

end

end TypeSig

theorem MemberSig.mapTokens_ends (sig : MemberSig) (hf : ∀ t ∈ sig.tokens, ∀ s, holds s →
      Ends s (f t) (fun s' u => Refines holds resolve s s' ∧ resolve s' t = .ok u) fails)
    {s : σ} (hs : holds s) : Ends s (sig.mapTokens f)
      (fun s' sig' => Refines holds resolve s s' ∧ sig.mapTokens (resolve s') = .ok sig') fails := by
  cases sig with
  | field sig =>
    refine (TypeSig.mapTokens_ends sig hf hs).bind fun u s' h => .pure ⟨h.1, ?_⟩
    rw [mapTokens, h.2]
    rfl
  | method sig =>
    obtain ⟨hresult, hparams⟩ := List.forall_mem_append.1 hf
    have hsig : Ends s (sig.mapTokens f) (fun s' sig' =>
        Refines holds resolve s s' ∧ sig.mapTokens (resolve s') = .ok sig') fails := by
      refine (TypeSig.mapTokens_ends sig.result hresult hs).bind fun b s' h => ?_
      refine (TypeSig.mapTokensOf_ends sig.params hparams h.1.holds).bind fun as s'' h' => ?_
      refine .pure ⟨h.1.trans h'.1, ?_⟩
      rw [MethodSig.mapTokens, TypeSig.mapTokens_refine h'.1.answers h.2]
      exact bind_eq_ok.2 ⟨_, rfl, bind_eq_ok.2 ⟨_, h'.2, rfl⟩⟩
    refine hsig.bind fun u s' h => .pure ⟨h.1, ?_⟩
    rw [mapTokens, h.2]
    rfl

end

namespace Importing

open ImportTables Relocation

variable {l : Linkage} {plan : Plan} {tables : ImportTables} {source : Nat} {m : Module}

/-! ## Rows for members -/

/-- A row for a member is found or added. -/
theorem memberRefRow_ends (hm : l.set.inputs[source]? = some m) {r : MemberRef} (hr : r ∈ m.memberRefs)
    (hsearch : memberSearch l source r = .outside) (hwired : tables.Wired l) (hcounted : tables.Counted l 0 0)
    (hnone : tables.substitution.get? ⟨source, r.token⟩ = none) {parent : Token}
    (hparent : tables.substitution.resolve source r.parent = .ok parent) {signature : MemberSig}
    (hsignature : r.signature.mapTokens (tables.substitution.resolve source) = .ok signature) :
    Ends tables (memberRefRow parent r.name signature) (fun tables' new =>
      After l (fun _ => False) 0 1 tables tables' ∧
        ∃ row ∈ tables'.memberRefs, row.token = new ∧ tables'.Spells source r row) (Excused l plan) := by
  refine .get ?_
  dsimp only
  split
  case h_1 row hrow =>
    have hmem := List.mem_of_find?_eq_some hrow
    have hsame := List.find?_some hrow
    simp only [Bool.and_eq_true, beq_iff_eq] at hsame
    obtain ⟨⟨rfl, hname⟩, rfl⟩ := hsame
    refine .pure ⟨⟨hwired, fun halone => ?_, .refl _ _ _⟩, row, hmem, rfl, hname, hparent, hsignature⟩
    exact ⟨(hcounted halone).1, Nat.le_succ_of_le (hcounted halone).2⟩
  case h_2 habsent =>
    refine (fresh_ends fun fault a hfull => ?_).bind fun token tables' h => ?_
    · obtain ⟨rfl, hmax⟩ := hwired.memberRows.full hfull
      rw [List.length_map] at hmax
      refine ⟨_, rfl, fun hall => ⟨_, rfl, Nat.lt_of_le_of_lt hmax ?_⟩⟩
      exact hcounted.memberRefs_lt hall.numbered hall.alone
        (ModuleSet.mem_sourced.2 ⟨m, hm, List.mem_map_of_mem hr⟩) hnone
    · obtain ⟨a, hnext, rfl⟩ := h
      have hspells : tables.Spells source r ⟨token, parent, r.name, signature⟩ :=
        ⟨rfl, hparent, hsignature⟩
      have hnew : ∀ q ∈ tables.memberRefs, q.said ≠ (parent, r.name, signature) := by
        intro q hq hsaid
        obtain ⟨rfl, hrest⟩ := Prod.mk.inj hsaid
        obtain ⟨hname, rfl⟩ := Prod.mk.inj hrest
        exact List.find?_eq_none.1 habsent q hq (by simp [hname])
      have hadded := hwired.addMemberRef hnext hm hr hsearch hspells hnew
      refine .bind (p := fun tables' _ => tables' = tables.addMemberRef a
        ⟨token, parent, r.name, signature⟩) (.change rfl) ?_
      rintro _ _ rfl
      refine .pure ⟨⟨hadded.1, fun halone => ?_, hadded.2⟩, _, ?_, rfl,
        hadded.2.spells (ModuleSet.isInput_of_getElem? hm) hspells⟩
      · rw [knownOf_unchanged hadded.2, knownOf_unchanged hadded.2]
        refine ⟨(hcounted halone).1, ?_⟩
        rw [addMemberRef, List.length_append]
        exact Nat.succ_le_succ (hcounted halone).2
      · exact List.mem_append_right _ (List.mem_singleton.2 rfl)

/-! ## Members -/

theorem not_typesOf (hset : l.set.Identified) (hm : l.set.inputs[source]? = some m) {r : MemberRef}
    (hr : r ∈ m.memberRefs) : ¬ TypesOf l.set source ⟨source, r.token⟩ := by
  rintro ⟨-, hkey⟩
  obtain ⟨m', hm', hmem⟩ := ModuleSet.mem_sourced.1 (hkey (ModuleSet.isInput_of_getElem? hm))
  obtain rfl := Option.some.inj (hm.symm.trans hm')
  exact (hset m (List.mem_of_getElem? hm)).memberRef_ne hr (List.mem_append_right _ hmem)

/-- What can be imported can be so later on. -/
theorem Importable.step {p : SourceToken → Prop} {tables' : ImportTables} {k : SourceToken}
    (hinput : l.set.isInput k.source) (hstep : Step l.set p tables tables')
    (h : Importable l tables k) : Importable l tables' k := by
  rcases h with hshared | ⟨new, hnew⟩ | hkey
  · exact .inl hshared
  · exact .inr (.inl ⟨new, hstep.known k new hinput hnew⟩)
  · exact .inr (.inr hkey)

/-- A reference to a member outside of the output is bound to a row that spells it. -/
theorem externalMember_ends (hset : l.set.Identified) (hm : l.set.inputs[source]? = some m)
    {r : MemberRef} (hr : r ∈ m.memberRefs) (hsearch : memberSearch l source r = .outside) (hwired : tables.Wired l) (hcounted : tables.Counted l 0 0)
    (hnone : tables.substitution.get? ⟨source, r.token⟩ = none)
    (huses : Resolvable l plan → ∀ t ∈ r.parent :: r.signature.tokens, Importable l tables ⟨source, t⟩) :
    Ends tables (externalMember l source r) (fun tables' new =>
      After l (TypesOf l.set source) 0 1 tables tables' ∧
        ∃ row ∈ tables'.memberRefs, row.token = new ∧ tables'.Spells source r row) (Excused l plan) := by
  have hinput := ModuleSet.isInput_of_getElem? hm
  -- all types are imported from tables that the first ones have been added to
  have htype : ∀ t ∈ r.parent :: r.signature.tokens, ∀ s, After l (TypesOf l.set source) 0 0 tables s →
      Ends s (type l source t) (fun s' u =>
        Refines (After l (TypesOf l.set source) 0 0 tables) (·.substitution.resolve source) s s' ∧
          s'.substitution.resolve source t = .ok u) (Excused l plan) := by
    intro t ht s hs
    refine (type_ends hset (ModuleSet.source?_of_getElem? hm) hs.wired hs.counted fun hall =>
      (huses hall t ht).step hinput hs.step).mono fun u s' h => ⟨⟨hs.trans h.1, ?_⟩, h.2 hinput⟩
    exact fun _ _ => h.1.step.resolve hinput
  obtain ⟨hparent, hsignature⟩ := List.forall_mem_cons.1 htype
  refine (hparent tables (.refl hwired hcounted)).bind fun parent s h => ?_
  refine (r.signature.mapTokens_ends hsignature h.1.holds).bind fun signature s' h' => ?_
  have hafter := h'.1.holds
  have hnone' := (hafter.step.unchanged _ (not_typesOf hset hm hr)).trans hnone
  refine (memberRefRow_ends hm hr hsearch hafter.wired hafter.counted hnone' (h'.1.answers _ _ h.2) h'.2).mono ?_
  rintro new tables' ⟨hrow, hspells⟩
  exact ⟨hafter.trans (hrow.mono fun _ => False.elim), hspells⟩

/-- What a reference is bound to becomes its counterpart, unless it has one. -/
theorem keepMember_ends (hset : l.set.Identified) (hm : l.set.inputs[source]? = some m)
    {r : MemberRef} (hr : r ∈ m.memberRefs)
    (hnone : tables.substitution.get? ⟨source, r.token⟩ = none) {tables' : ImportTables}
    (hafter : After l (TypesOf l.set source) 0 1 tables tables') {new : Token}
    (hbinds : BindsMember l tables' source r new) {fails : Fault → Prop} :
    Ends tables' (do keep ⟨source, r.token⟩ new; return new) (fun tables'' new' =>
      After l (fun _ => True) 0 0 tables tables'' ∧
        tables''.substitution.get? ⟨source, r.token⟩ = some new') fails := by
  have hidentified := hset m (List.mem_of_getElem? hm)
  have hkey : ⟨source, r.token⟩ ∈ l.set.memberRefKeys :=
    ModuleSet.mem_sourced.2 ⟨m, hm, List.mem_map_of_mem hr⟩
  have hnone' := (hafter.step.unchanged _ (not_typesOf hset hm hr)).trans hnone
  have hkept := hafter.wired.keep ⟨source, r.token⟩ new ?_
  · refine .bind (p := fun tables'' _ => tables'' = tables'.keep ⟨source, r.token⟩ new) (.change rfl) ?_
    rintro _ _ rfl
    refine .pure ⟨(hafter.mono fun _ _ => trivial).trans ?_, Substitution.get?_insert_self _ _ _⟩
    exact ⟨hkept.1, hafter.counted.keepMember hkey hnone' new, hkept.2.mono fun _ _ => trivial⟩
  · intro m' hm'
    obtain rfl := Option.some.inj (hm.symm.trans hm')
    refine ⟨hnone', hidentified.unshared_memberRef hr, fun row hrow htoken => ?_, fun r' hr' htoken => ?_⟩
    · -- a reference to a type has another token
      have hmem : r.token ∈ m.typeRefs.map TypeRef.token := List.mem_map.2 ⟨row, hrow, htoken⟩
      exact absurd (List.mem_append_right _ hmem) (hidentified.memberRef_ne hr)
    · rwa [List.inj_on_of_nodup_map hidentified.nodup_memberRefs hr' hr htoken]

theorem memberRef?_of_mem (hnodup : (m.memberRefs.map MemberRef.token).Nodup) {r : MemberRef}
    (hr : r ∈ m.memberRefs) : m.memberRef? r.token = some r :=
  find?_key_of_mem hnodup hr

/-- A member of an input has its counterpart from the start on, if tokens are numbered well. -/
theorem found_ends (hwired : tables.Wired l) {input : Nat} {type : TypeDef} {found : Token} {key : MemberKey}
    (hdeclares : l.set.Declares ⟨input, type⟩)
    (hfound : (type.memberKeys (l.names input)).lookup key = some found) :
    Ends tables (do
        match (← get).substitution.resolve input found with
        | .ok token => return token
        | .error fault => throw fault : Importing Token)
      (fun tables' new => tables = tables' ∧ tables'.substitution.resolve input found = .ok new)
      (Excused l plan) := by
  refine .get ?_
  split
  case h_1 new hnew => exact .pure ⟨rfl, hnew⟩
  case h_2 fault hfault =>
    obtain ⟨rfl, -, hnone⟩ := Substitution.resolve_eq_error hfault
    refine .throw (.of_not fun hall => ?_)
    rw [TypeDef.lookup_memberKeys] at hfound
    obtain ⟨x, hx, rfl⟩ := Option.map_eq_some_iff.1 hfound
    have hx := List.mem_of_find?_eq_some hx
    obtain ⟨new, hnew⟩ := hwired.defined hall.numbered _
      (ModuleSet.mem_keys_of_declaresMember (x := ⟨input, x⟩) ⟨type, hdeclares, hx⟩)
    exact nomatch hnone.symm.trans hnew

/-- Importing a reference to a member binds it. -/
theorem memberRef_ends (hset : l.set.Identified) (hm : l.set.inputs[source]? = some m) {r : MemberRef}
    (hr : r ∈ m.memberRefs) (hwired : tables.Wired l) (hcounted : tables.Counted l 0 0)
    (huses : Resolvable l plan → memberSearch l source r = .outside →
      ∀ t ∈ r.parent :: r.signature.tokens, Importable l tables ⟨source, t⟩) :
    Ends tables (memberRef l source r.token) (fun tables' new => After l (fun _ => True) 0 0 tables tables' ∧
      tables'.substitution.get? ⟨source, r.token⟩ = some new) (Excused l plan) := by
  refine .get ?_
  rcases hget : tables.substitution.get? ⟨source, r.token⟩ with _ | known
  case some => exact .pure ⟨.refl hwired hcounted, hget⟩
  have houtside : memberSearch l source r = .outside → Ends tables (externalMember l source r)
      (fun tables' new => After l (TypesOf l.set source) 0 1 tables tables' ∧
        BindsMember l tables' source r new) (Excused l plan) := by
    intro hsearch
    refine (externalMember_ends hset hm hr hsearch hwired hcounted hget fun hall => huses hall hsearch).mono ?_
    rintro new tables' ⟨hafter, row, hrow, htoken, hspells⟩
    exact ⟨hafter, .reference hsearch hrow htoken hspells⟩
  refine (module_ends (ModuleSet.source?_of_getElem? hm)).bind ?_
  rintro _ _ ⟨rfl, rfl⟩
  rw [memberRef?_of_mem (hset m (List.mem_of_getElem? hm)).nodup_memberRefs hr]
  dsimp only
  rcases hparent : inputType? l source r.parent with _ | ⟨input, t⟩
  · have hsearch : memberSearch l source r = .outside := by rw [memberSearch, hparent]
    refine (houtside hsearch).bind fun new tables' h => ?_
    exact keepMember_ends hset hm hr hget h.1 h.2
  · have hsearch : memberSearch l source r = search l (r.key (l.names source)) searchDepth (input, t) := by
      rw [memberSearch, hparent]
    dsimp only
    rw [mergedMember_eq]
    rcases hend : search l (r.key (l.names source)) searchDepth (input, t) with ⟨i, type, found⟩ | _ | _
    · rw [hend] at hsearch
      obtain ⟨hdeclares, hfound⟩ := memberSearch_found hsearch
      refine (found_ends hwired hdeclares hfound).bind ?_
      rintro new _ ⟨rfl, hnew⟩
      refine keepMember_ends hset hm hr hget ⟨hwired, fun halone => ?_, .refl _ _ _⟩
        (.definition hsearch hnew)
      exact ⟨(hcounted halone).1, Nat.le_succ_of_le (hcounted halone).2⟩
    · rw [hend] at hsearch
      refine (houtside hsearch).bind fun new tables' h => ?_
      exact keepMember_ends hset hm hr hget h.1 h.2
    · rw [hend] at hsearch
      exact .bind (p := fun _ _ => False)
        (.throw (.of_not fun hall => hall.members source m hm r hr hsearch)) fun _ _ => False.elim

end Importing

/-! ## All references -/

namespace Relocation

open ImportTables Importing

variable {l : Linkage} {plan : Plan} {tables : ImportTables} {source : Nat} {m : Module}

/-- The references of an input have counterparts. -/
structure Imported (tables : ImportTables) (source : Nat) (m : Module) : Prop where
  typeRefs : ∀ row ∈ m.typeRefs, ∃ new, tables.substitution.get? ⟨source, row.token⟩ = some new
  memberRefs : ∀ r ∈ m.memberRefs, ∃ new, tables.substitution.get? ⟨source, r.token⟩ = some new

theorem Imported.step {p : SourceToken → Prop} {tables' : ImportTables} (hinput : l.set.isInput source)
    (hstep : Step l.set p tables tables') (h : Imported tables source m) : Imported tables' source m := by
  constructor
  · intro row hrow
    obtain ⟨new, hnew⟩ := h.typeRefs row hrow
    exact ⟨new, hstep.known _ _ hinput hnew⟩
  · intro r hr
    obtain ⟨new, hnew⟩ := h.memberRefs r hr
    exact ⟨new, hstep.known _ _ hinput hnew⟩

/-- What a closed input uses can be imported, unless it is a reference to a member. -/
theorem importable_of_names (hset : l.set.WellNumbered) (hm : l.set.inputs[source]? = some m)
    (hwired : tables.Wired l) {t : Token} (h : m.Names t) :
    Importable l tables ⟨source, t⟩ ∨ t ∈ m.memberRefs.map MemberRef.token := by
  rw [Module.Names, Module.definedTokens_eq, List.mem_append, List.mem_append] at h
  rcases h with hshared | (hdefined | htype) | hmember
  · exact .inl (.inl hshared)
  · exact .inl (.inr (.inl (hwired.defined hset _ (ModuleSet.mem_keys.2 ⟨m, hm, hdefined⟩))))
  · exact .inl (.inr (.inr (ModuleSet.mem_sourced.2 ⟨m, hm, htype⟩)))
  · exact .inr hmember

/-- What a reference to a member uses when it stays one can be imported after those before it. -/
theorem importable_of_ordered (hall : Resolvable l plan) (hm : l.set.inputs[source]? = some m)
    (hwired : tables.Wired l) {before after : List MemberRef} {r : MemberRef}
    (hsplit : before ++ r :: after = m.memberRefs) (hsearch : memberSearch l source r = .outside)
    (hbefore : ∀ q ∈ before, ∃ new, tables.substitution.get? ⟨source, q.token⟩ = some new) :
    ∀ t ∈ r.parent :: r.signature.tokens, Importable l tables ⟨source, t⟩ := by
  intro t ht
  have hr : r ∈ m.memberRefs := hsplit ▸ List.mem_append_right _ List.mem_cons_self
  have hnames := (hall.closed m (List.mem_of_getElem? hm)).memberRefs r hr t ht
  rcases importable_of_names hall.numbered hm hwired hnames with himportable | hmember
  · exact himportable
  · have hlater := hall.ordered source m hm before r after hsplit.symm hsearch t ht
    rw [← hsplit, List.map_append, List.mem_append] at hmember
    obtain ⟨q, hq, rfl⟩ := List.mem_map.1 (hmember.resolve_right hlater)
    exact .inr (.inl (hbefore q hq))

/-- A loop binds what each of its steps binds. -/
theorem forM_ends {α : Type} {xs : List α} {f : α → Importing PUnit} {b : α → ImportTables → Prop}
    (hmono : ∀ x ∈ xs, ∀ s s', Step l.set (fun _ => True) s s' → b x s → b x s')
    (hf : ∀ done x rest, done ++ x :: rest = xs → ∀ s, After l (fun _ => True) 0 0 tables s →
      (∀ y ∈ done, b y s) → Ends s (f x) (fun s' _ =>
        After l (fun _ => True) 0 0 s s' ∧ b x s') (Excused l plan))
    (hwired : tables.Wired l) (hcounted : tables.Counted l 0 0) :
    Ends tables (xs.forM f) (fun s' _ =>
      After l (fun _ => True) 0 0 tables s' ∧ ∀ x ∈ xs, b x s') (Excused l plan) := by
  refine .forM (motive := fun done s => After l (fun _ => True) 0 0 tables s ∧ ∀ x ∈ done, b x s)
    ⟨.refl hwired hcounted, nofun⟩ ?_
  rintro done x rest hsplit s ⟨hafter, hdone⟩
  refine (hf done x rest hsplit s hafter hdone).mono fun _ s' h => ⟨hafter.trans h.1, ?_⟩
  refine List.forall_mem_append.2 ⟨fun y hy => ?_, List.forall_mem_singleton.2 h.2⟩
  exact hmono y (hsplit ▸ List.mem_append_left _ hy) s s' h.1.step (hdone y hy)

/-- Importing the references of an input binds them all. -/
theorem importModule_ends (hset : l.set.Identified) (hm : l.set.inputs[source]? = some m)
    (hwired : tables.Wired l) (hcounted : tables.Counted l 0 0) :
    Ends tables (importModule l source m) (fun tables' _ =>
      After l (fun _ => True) 0 0 tables tables' ∧ Imported tables' source m) (Excused l plan) := by
  have hinput := ModuleSet.isInput_of_getElem? hm
  have hknown : ∀ token, ∀ s s', Step l.set (fun _ => True) s s' →
      (∃ new, s.substitution.get? ⟨source, token⟩ = some new) →
        ∃ new, s'.substitution.get? ⟨source, token⟩ = some new :=
    fun token s s' hstep ⟨new, hnew⟩ => ⟨new, hstep.known _ _ hinput hnew⟩
  refine (forM_ends (b := fun row s => ∃ new, s.substitution.get? ⟨source, row.token⟩ = some new)
    (fun row _ => hknown row.token) (fun done row rest hsplit s hafter _ => ?_) hwired hcounted).bind
    fun _ s h => ?_
  · have hrow : row ∈ m.typeRefs := hsplit ▸ List.mem_append_right _ List.mem_cons_self
    refine (typeRef_ends hset (ModuleSet.source?_of_getElem? hm) hafter.wired hafter.counted
      fun _ => ⟨row, hrow, rfl⟩).bind fun new s' h => .pure ⟨h.1.mono fun _ _ => trivial, new, h.2 hinput⟩
  · refine (forM_ends (b := fun r s => ∃ new, s.substitution.get? ⟨source, r.token⟩ = some new)
      (fun r _ => hknown r.token) (fun done r rest hsplit s hafter hdone => ?_) h.1.wired h.1.counted).mono
      fun _ s' h' => ⟨h.1.trans h'.1, fun row hrow => ?_, h'.2⟩
    · have hr : r ∈ m.memberRefs := hsplit ▸ List.mem_append_right _ List.mem_cons_self
      refine (memberRef_ends hset hm hr hafter.wired hafter.counted fun hall hsearch =>
        importable_of_ordered hall hm hafter.wired hsplit hsearch hdone).bind
        fun new s' h => .pure ⟨h.1, new, h.2⟩
    · exact hknown row.token s s' h'.1.step (h.2 row hrow)

/-- What a planned attribute becomes: its type is replaced by the counterpart, if it is one of an
input. -/
def Attributed (l : Linkage) (tables : ImportTables) (planned : PlannedAttribute) (b : Attribute) : Prop :=
  ∃ m a, l.set.source? (planned.source.number l.set) = some m ∧ m.attributes[planned.index]? = some a ∧
    b = { a with type := b.type } ∧ (l.set.isInput (planned.source.number l.set) →
      tables.substitution.resolve (planned.source.number l.set) a.type = .ok b.type)

theorem Attributed.step {p : SourceToken → Prop} {tables' : ImportTables}
    (hstep : Step l.set p tables tables') {planned : PlannedAttribute} {b : Attribute}
    (h : Attributed l tables planned b) : Attributed l tables' planned b := by
  obtain ⟨m, a, hm, ha, hb, htype⟩ := h
  exact ⟨m, a, hm, ha, hb, fun hinput => hstep.resolve hinput (htype hinput)⟩

theorem importAttribute_ends (hset : l.set.Identified) (hwired : tables.Wired l)
    (hcounted : tables.Counted l 0 0)
    (himported : ∀ source m, l.set.inputs[source]? = some m → Imported tables source m)
    {planned : PlannedAttribute} (hplanned : planned ∈ plan.attributes) :
    Ends tables (importAttribute l planned) (fun tables' b =>
      After l (fun _ => True) 0 0 tables tables' ∧ Attributed l tables' planned b) (Excused l plan) := by
  rcases hm : l.set.source? (planned.source.number l.set) with _ | m
  · have hall : ¬ Resolvable l plan := by
      intro hall
      obtain ⟨m, a, hm', -⟩ := hall.planned planned hplanned
      exact nomatch hm.symm.trans hm'
    refine .bind (p := fun _ _ => False) ?_ fun _ _ => False.elim
    unfold Importing.module
    rw [hm]
    exact .throw (.of_not hall)
  · refine (module_ends hm).bind ?_
    rintro _ _ ⟨rfl, rfl⟩
    split
    case h_1 hnone =>
      refine .throw (.of_not fun hall => ?_)
      obtain ⟨m', a, hm', ha⟩ := hall.planned planned hplanned
      obtain rfl := Option.some.inj (hm.symm.trans hm')
      exact nomatch hnone.symm.trans ha
    case h_2 a ha =>
      refine (type_ends hset hm hwired hcounted fun hall => ?_).bind fun new tables' h =>
        .pure ⟨h.1.mono fun _ _ => trivial, m, a, hm, ha, rfl, h.2⟩
      -- where the attribute is one of an input, all of its references are known
      rw [ModuleSet.source?, hall.alone, Option.map_none, Option.or_none] at hm
      have hnames := (hall.closed m (List.mem_of_getElem? hm)).attributes a (List.mem_of_getElem? ha)
      rcases importable_of_names hall.numbered hm hwired hnames with himportable | hmember
      · exact himportable
      · obtain ⟨r, hr, heq⟩ := List.mem_map.1 hmember
        exact .inr (.inl (heq ▸ (himported _ m hm).memberRefs r hr))

/-- All references of the inputs are bound, and the planned attributes are there. -/
structure Bound (l : Linkage) (plan : Plan) (start tables : ImportTables) (attributes : List Attribute) :
    Prop where
  wired : tables.Wired l
  step : Step l.set (fun _ => True) start tables
  imported : ∀ source m, l.set.inputs[source]? = some m → Imported tables source m
  attributes : List.Forall₂ (Attributed l tables) plan.attributes attributes

theorem importAll_ends (hset : l.set.Identified) (hwired : tables.Wired l)
    (hcounted : tables.Counted l 0 0) :
    Ends tables (importAll l plan) (Bound l plan tables) (Excused l plan) := by
  have hentry : ∀ p ∈ l.set.inputs.zipIdx, l.set.inputs[p.2]? = some p.1 := fun p hp =>
    List.mk_mem_zipIdx_iff_getElem?.1 hp
  refine (forM_ends (b := fun (p : Module × Nat) s => Imported s p.2 p.1) (fun p hp s s' hstep h =>
    h.step (ModuleSet.isInput_of_getElem? (hentry p hp)) hstep)
    (fun done p rest hsplit s hafter _ => ?_) hwired hcounted).bind fun _ s h => ?_
  · have hp : p ∈ l.set.inputs.zipIdx := hsplit ▸ List.mem_append_right _ List.mem_cons_self
    exact importModule_ends hset (hentry p hp) hafter.wired hafter.counted
  · have himported : ∀ source m, l.set.inputs[source]? = some m → Imported s source m :=
      fun source m hm => h.2 (m, source) (List.mk_mem_zipIdx_iff_getElem?.2 hm)
    refine (Ends.mapM (motive := fun done bs s' => After l (fun _ => True) 0 0 s s' ∧
      List.Forall₂ (Attributed l s') done bs) ⟨.refl h.1.wired h.1.counted, .nil⟩ ?_).mono
      fun bs s' h' => ⟨h'.1.wired, h.1.step.trans h'.1.step, fun source m hm => ?_, h'.2⟩
    · rintro done planned rest hsplit bs s' ⟨hafter, hdone⟩
      have hplanned : planned ∈ plan.attributes := hsplit ▸ List.mem_append_right _ List.mem_cons_self
      have himported' := fun source m hm =>
        (himported source m hm).step (ModuleSet.isInput_of_getElem? hm) hafter.step
      refine (importAttribute_ends hset hafter.wired hafter.counted himported' hplanned).mono
        fun b s'' h'' => ⟨hafter.trans h''.1, ?_⟩
      refine List.rel_append (hdone.imp fun _ _ => Attributed.step h''.1.step) (.cons h''.2 .nil)
    · exact (himported source m hm).step (ModuleSet.isInput_of_getElem? hm) h'.1.step

end Relocation

end ModuleLinker
