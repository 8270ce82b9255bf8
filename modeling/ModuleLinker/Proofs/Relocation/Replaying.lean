import ModuleLinker.Proofs.Plan.Twins
import ModuleLinker.Proofs.Relocation.Binding
import ModuleLinker.Proofs.Relocation.TidyRows

namespace ModuleLinker

/-! # Importing the same references again

The references of a module are imported into two sets of modules: into a set of this module alone, and
into one that has the module and a copy of it. Whatever is done in the first set is done in the second one
in the same way, for the module as well as for the copy. For the module the tables stay the same; for the
copy all rows are there already.
-/

/-- What is found in the beginning of a list is found in the list. -/
theorem find?_of_prefix {p : α → Bool} {xs ys : List α} (h : xs <+: ys) {x : α}
    (hx : xs.find? p = some x) : ys.find? p = some x := by
  obtain ⟨more, rfl⟩ := h
  rw [List.find?_append, hx, Option.some_or]

/-- Behind a beginning in which nothing is found the next element is found. -/
theorem find?_of_prefix_concat {p : α → Bool} {xs ys : List α} {x : α} (h : xs ++ [x] <+: ys)
    (hxs : xs.find? p = none) (hx : p x) : ys.find? p = some x := by
  refine find?_of_prefix h ?_
  rw [List.find?_append, hxs, Option.none_or, List.find?_cons_of_pos hx]

theorem findIdx?_of_prefix {p : α → Bool} {xs ys : List α} (h : xs <+: ys) {i : Nat}
    (hi : xs.findIdx? p = some i) : ys.findIdx? p = some i := by
  obtain ⟨more, rfl⟩ := h
  rw [List.findIdx?_append, hi, Option.some_or]

theorem findIdx?_of_prefix_concat {p : α → Bool} {xs ys : List α} {x : α} (h : xs ++ [x] <+: ys)
    (hxs : xs.findIdx? p = none) (hx : p x) : ys.findIdx? p = some xs.length := by
  refine findIdx?_of_prefix h ?_
  rw [List.findIdx?_append, hxs, Option.none_or]
  simp [List.findIdx?_cons, hx]

/-- The module that a type reference leads to is a referenced one. -/
theorem Module.mem_references_of_targetWithin {m : Module} {steps : Nat} {row : TypeRef} {identity : Identity}
    (h : m.targetWithin steps row = some identity) : identity ∈ m.references := by
  induction steps generalizing row with
  | zero => cases h
  | succ steps ih =>
    rw [targetWithin] at h
    split at h
    case h_1 => exact List.mem_of_getElem? h
    case h_2 =>
      obtain ⟨outer, -, houter⟩ := Option.bind_eq_some_iff.1 h
      exact ih houter
    case h_3 => cases h

theorem Module.mem_references_of_typeRefTarget? {m : Module} {token : Token} {identity : Identity}
    (h : m.typeRefTarget? token = some identity) : identity ∈ m.references := by
  obtain ⟨row, -, hrow⟩ := Option.bind_eq_some_iff.1 h
  exact mem_references_of_targetWithin hrow

namespace ImportTables

/-- The rows of the second tables start with those of the first ones, and the definitions of the module
have the counterparts that they had. -/
structure Begins (m : Module) (s t : ImportTables) : Prop where
  references : s.references <+: t.references
  typeRefs : s.typeRefs <+: t.typeRefs
  memberRefs : s.memberRefs <+: t.memberRefs
  declared : ∀ token ∈ m.allTypes.flatMap TypeDef.definedTokens,
    t.substitution.get? ⟨0, token⟩ = s.substitution.get? ⟨0, token⟩

theorem Begins.refl (m : Module) (s : ImportTables) : s.Begins m s :=
  ⟨List.prefix_refl _, List.prefix_refl _, List.prefix_refl _, fun _ _ => rfl⟩

theorem Begins.trans {m : Module} {s t u : ImportTables} (h : s.Begins m t) (h' : t.Begins m u) :
    s.Begins m u :=
  ⟨h.references.trans h'.references, h.typeRefs.trans h'.typeRefs, h.memberRefs.trans h'.memberRefs,
    fun token htoken => (h'.declared token htoken).trans (h.declared token htoken)⟩

/-- Two tables differ in nothing but the counterparts. -/
structure SameRows (s t : ImportTables) : Prop where
  allocator : t.allocator = s.allocator
  references : t.references = s.references
  typeRefs : t.typeRefs = s.typeRefs
  memberRefs : t.memberRefs = s.memberRefs

end ImportTables

namespace Importing

open ImportTables

/-- A setting for a module alone, and one that has the module and, as the input `j`, a copy of it; the copy
is the module itself if `j` is its number. -/
structure Twin (l l' : Linkage) (m : Module) (j : Nat) : Prop where
  inputs : l.set.inputs = [m]
  copies : ∀ i, i = 0 ∨ i = j → ∃ name, l'.set.inputs[i]? = some (m.called name)
  names : ∀ i, i = 0 ∨ i = j → l'.names i = l.names 0
  indices : ∀ r ∈ m.references, l'.set.inputIndex? r.name = l.set.inputIndex? r.name
  identified : m.Identified

/-- The tables `t` follow the tables `s`: the input `j` has there the counterparts that the module has in
`s`, and its definitions have the same ones under both numbers. The rows are those of `s`, or those of
`final`, which `s` is going to have. -/
structure Tracks (m : Module) (j : Nat) (start : Substitution) (final : Option ImportTables)
    (s t : ImportTables) : Prop where
  rows : SameRows (final.getD s) t
  tokens : ∀ token, t.substitution.get? ⟨j, token⟩ = s.substitution.get? ⟨0, token⟩
  declared : ∀ token ∈ m.allTypes.flatMap TypeDef.definedTokens,
    t.substitution.get? ⟨0, token⟩ = s.substitution.get? ⟨0, token⟩
  others : ∀ k, k.source ≠ j → t.substitution.get? k = start.get? k

section

variable {l l' : Linkage} {m : Module} {j : Nat} {start : Substitution} {final : Option ImportTables}

/-- Where `x` answers it adds rows, and from tables that follow those before it `y` answers the same and
leads to tables that follow those after it. -/
def Mirrored (m : Module) (j : Nat) (start : Substitution) (final : Option ImportTables)
    (x y : Importing α) : Prop :=
  ∀ s a s', x.run.run s = (.ok a, s') → s.Begins m s' ∧
    ∀ t, Tracks m j start final s t → (∀ f ∈ final, s'.Begins m f) →
      ∃ t', y.run.run t = (.ok a, t') ∧ Tracks m j start final s' t'

namespace Mirrored

variable {x y : Importing α} {f g : α → Importing β}

theorem pure (a : α) : Mirrored m j start final (Pure.pure a) (Pure.pure a) := by
  intro s b s' h
  cases h
  exact ⟨.refl m s, fun t ht _ => ⟨t, rfl, ht⟩⟩

theorem throw (fault : Fault) (y : Importing α) :
    Mirrored m j start final (MonadExcept.throw fault) y :=
  fun _ _ _ h => nomatch h

theorem unbound (cause : Unbound) (y : Importing α) :
    Mirrored m j start final (Importing.unbound cause) y :=
  throw _ y

theorem bind (hx : Mirrored m j start final x y) (hf : ∀ a, Mirrored m j start final (f a) (g a)) :
    Mirrored m j start final (x >>= f) (y >>= g) := by
  intro s b s'' h
  obtain ⟨a, s', hrun, hrest⟩ := run_bind_eq_ok h
  obtain ⟨hbegins, hfollow⟩ := hx s a s' hrun
  obtain ⟨hbegins', hfollow'⟩ := hf a s' b s'' hrest
  refine ⟨hbegins.trans hbegins', ?_⟩
  intro t ht hroom
  obtain ⟨t', hrun', ht'⟩ := hfollow t ht fun f hf => hbegins'.trans (hroom f hf)
  obtain ⟨t'', hrest', ht''⟩ := hfollow' t' ht' hroom
  exact ⟨t'', (run_bind_of_ok hrun').trans hrest', ht''⟩

theorem forM {β : Type} {xs : List β} {f g : β → Importing PUnit}
    (h : ∀ x ∈ xs, Mirrored m j start final (f x) (g x)) :
    Mirrored m j start final (xs.forM f) (xs.forM g) := by
  induction xs with
  | nil => exact pure PUnit.unit
  | cons x xs ih =>
    obtain ⟨hx, hxs⟩ := List.forall_mem_cons.1 h
    exact hx.bind fun _ => ih hxs

theorem mapM {γ : Type} {xs : List γ} {f g : γ → Importing α}
    (h : ∀ x ∈ xs, Mirrored m j start final (f x) (g x)) :
    Mirrored m j start final (xs.mapM f) (xs.mapM g) := by
  induction xs with
  | nil => exact pure []
  | cons x xs ih =>
    obtain ⟨hx, hxs⟩ := List.forall_mem_cons.1 h
    rw [List.mapM_cons, List.mapM_cons]
    exact hx.bind fun a => (ih hxs).bind fun as => pure (a :: as)

end Mirrored

/-! ## Rows and counterparts -/

/-- A counterpart that is the same in both tables is looked up in the same way. -/
theorem known_mirrored_of {k k' : SourceToken} (h : ∀ s t, Tracks m j start final s t →
    t.substitution.get? k' = s.substitution.get? k) : Mirrored m j start final (known? k) (known? k') := by
  intro s a s' hrun
  obtain ⟨ha, rfl⟩ := Prod.mk.inj hrun
  refine ⟨.refl m s, fun t ht _ => ⟨t, ?_, ht⟩⟩
  obtain rfl := Except.ok.inj ha
  exact congrArg (fun known => (Except.ok known, t)) (h s t ht)

theorem known_mirrored (token : Token) :
    Mirrored m j start final (known? ⟨0, token⟩) (known? ⟨j, token⟩) :=
  known_mirrored_of fun _ _ ht => ht.tokens token

/-- The definitions have their counterparts under both numbers. -/
theorem known_declared_mirrored {i : Nat} (hi : i = 0 ∨ i = j) {token : Token}
    (htoken : token ∈ m.allTypes.flatMap TypeDef.definedTokens) :
    Mirrored m j start final (known? ⟨0, token⟩) (known? ⟨i, token⟩) := by
  rcases hi with rfl | rfl
  · exact known_mirrored_of fun _ _ ht => ht.declared token htoken
  · exact known_mirrored token

/-- With the same counterpart a token is resolved in the same way. -/
theorem resolve_of_get?_eq {sub sub' : Substitution} {i i' : Nat} {token new : Token}
    (h : sub'.get? ⟨i', token⟩ = sub.get? ⟨i, token⟩) (hnew : sub.resolve i token = .ok new) :
    sub'.resolve i' token = .ok new := by
  rcases Substitution.resolve_eq_ok hnew with ⟨hshared, rfl⟩ | ⟨hshared, hget⟩
  · exact Substitution.resolve_of_isShared hshared
  · exact Substitution.resolve_of_get? hshared (h.trans hget)

theorem resolve_mirrored {i : Nat} {token : Token} (h : ∀ s t, Tracks m j start final s t →
    t.substitution.get? ⟨i, token⟩ = s.substitution.get? ⟨0, token⟩) :
    Mirrored m j start final
      (do match (← get).substitution.resolve 0 token with
        | .ok resolved => return resolved
        | .error fault => throw fault)
      (do match (← get).substitution.resolve i token with
        | .ok resolved => return resolved
        | .error fault => throw fault) := by
  intro s a s' hrun
  have hget {i : Nat} (s : ImportTables) :
      (do match (← get).substitution.resolve i token with
        | .ok resolved => return resolved
        | .error fault => throw fault : Importing Token).run.run s =
      (match s.substitution.resolve i token with
        | .ok resolved => return resolved
        | .error fault => throw fault : Importing Token).run.run s := rfl
  rw [hget] at hrun
  rcases hresolve : s.substitution.resolve 0 token with fault | resolved
  · rw [hresolve] at hrun
    exact nomatch hrun
  · rw [hresolve] at hrun
    cases hrun
    refine ⟨.refl m s, fun t ht _ => ⟨t, ?_, ht⟩⟩
    rw [hget, resolve_of_get?_eq (h s t ht) hresolve]
    rfl

/-- Counterparts of references may be set. -/
theorem keep_mirrored {token : Token} (htoken : token ∉ m.allTypes.flatMap TypeDef.definedTokens)
    (new : Token) : Mirrored m j start final (keep ⟨0, token⟩ new) (keep ⟨j, token⟩ new) := by
  intro s a s' h
  obtain ⟨-, rfl⟩ := Prod.mk.inj h
  have hdeclared (sub : Substitution) (i : Nat) {other : Token}
      (hother : other ∈ m.allTypes.flatMap TypeDef.definedTokens) :
      (sub.insert ⟨i, token⟩ new).get? ⟨0, other⟩ = sub.get? ⟨0, other⟩ := by
    refine Substitution.get?_insert_of_ne _ (fun heq => htoken ?_) new
    obtain ⟨-, rfl⟩ := SourceToken.mk.inj heq
    exact hother
  refine ⟨⟨List.prefix_refl _, List.prefix_refl _, List.prefix_refl _, fun _ => hdeclared _ _⟩, ?_⟩
  refine fun t ht _ => ⟨_, rfl, ?_, ?_, ?_, ?_⟩
  · rcases final with _ | f
    · exact ⟨ht.rows.allocator, ht.rows.references, ht.rows.typeRefs, ht.rows.memberRefs⟩
    · exact ⟨ht.rows.allocator, ht.rows.references, ht.rows.typeRefs, ht.rows.memberRefs⟩
  · intro other
    dsimp only
    rw [Substitution.get?_insert, Substitution.get?_insert, ht.tokens other]
    simp only [SourceToken.mk.injEq, true_and]
  · intro other hother
    dsimp only
    rw [hdeclared _ _ hother, hdeclared _ _ hother, ht.declared other hother]
  · intro k hk
    dsimp only
    rw [Substitution.get?_insert_of_ne _ (fun heq => hk (congrArg SourceToken.source heq)), ht.others k hk]

/-- The tables may follow each other with other rows. -/
theorem Tracks.withRows {s s' t t' : ImportTables} (h : Tracks m j start final s t)
    (hs : s'.substitution = s.substitution) (ht : t'.substitution = t.substitution)
    (hrows : SameRows (final.getD s') t') : Tracks m j start final s' t' := by
  refine ⟨hrows, ?_, ?_, ?_⟩
  · rw [hs, ht]
    exact h.tokens
  · rw [hs, ht]
    exact h.declared
  · rw [ht]
    exact h.others

/-- A referenced module has its index in the tables, or it is added and then has it in those that are
there in the end. -/
theorem reference_mirrored (identity : Identity) :
    Mirrored m j start final (reference identity) (reference identity) := by
  intro s a s' hrun
  rcases hfound : s.references.findIdx? (·.agrees identity) with _ | index
  · rw [reference_added hfound] at hrun
    cases hrun
    refine ⟨⟨List.prefix_append _ _, List.prefix_refl _, List.prefix_refl _, fun _ _ => rfl⟩,
      fun t ht hroom => ?_⟩
    rcases final with _ | f
    · have hsame : SameRows s t := ht.rows
      have hadded := reference_added (hsame.references.symm ▸ hfound)
      rw [hsame.references] at hadded
      refine ⟨_, hadded, ht.withRows rfl rfl ?_⟩
      exact ⟨hsame.allocator, rfl, hsame.typeRefs, hsame.memberRefs⟩
    · have hsame : SameRows f t := ht.rows
      have hself : identity.agrees identity := by simp [Identity.agrees]
      have hbegins := (hroom f rfl).references
      rw [← hsame.references] at hbegins
      exact ⟨t, reference_found (findIdx?_of_prefix_concat hbegins hfound hself), ht.withRows rfl rfl hsame⟩
  · rw [reference_found hfound] at hrun
    cases hrun
    refine ⟨.refl m s, fun t ht hroom => ⟨t, reference_found ?_, ht⟩⟩
    rcases final with _ | f
    · have hsame : SameRows s t := ht.rows
      rwa [hsame.references]
    · have hsame : SameRows f t := ht.rows
      have hbegins := (hroom f rfl).references
      rw [← hsame.references] at hbegins
      exact findIdx?_of_prefix hbegins hfound

theorem typeRefRow_mirrored (scope : Scope) (namespaceName name : String) :
    Mirrored m j start final (typeRefRow scope namespaceName name) (typeRefRow scope namespaceName name) := by
  intro s token s' hrun
  rcases typeRefRow_eq_ok hrun with ⟨row, hfound, rfl, rfl⟩ | ⟨hfound, a, hnext, rfl⟩
  · refine ⟨.refl m _, fun t ht hroom => ⟨t, typeRefRow_found ?_, ht⟩⟩
    rcases final with _ | f
    · have hsame : SameRows s' t := ht.rows
      rwa [typeRow?, hsame.typeRefs]
    · have hsame : SameRows f t := ht.rows
      have hbegins := (hroom f rfl).typeRefs
      rw [← hsame.typeRefs] at hbegins
      exact find?_of_prefix hbegins hfound
  · refine ⟨⟨List.prefix_refl _, List.prefix_append _ _, List.prefix_refl _, fun _ _ => rfl⟩,
      fun t ht hroom => ?_⟩
    rcases final with _ | f
    · have hsame : SameRows s t := ht.rows
      have hadded : (typeRefRow scope namespaceName name).run.run t = _ :=
        typeRefRow_added (by rwa [typeRow?, hsame.typeRefs]) (hsame.allocator ▸ hnext)
      rw [hsame.typeRefs] at hadded
      refine ⟨_, hadded, ht.withRows rfl rfl ?_⟩
      exact ⟨rfl, hsame.references, rfl, hsame.memberRefs⟩
    · have hsame : SameRows f t := ht.rows
      have hbegins := (hroom f rfl).typeRefs
      rw [← hsame.typeRefs] at hbegins
      have hfound' : typeRow? t scope namespaceName name = some ⟨token, scope, namespaceName, name⟩ :=
        find?_of_prefix_concat hbegins hfound (by simp)
      exact ⟨t, typeRefRow_found hfound', ht.withRows rfl rfl hsame⟩

theorem memberRefRow_mirrored (parent : Token) (name : String) (signature : MemberSig) :
    Mirrored m j start final (memberRefRow parent name signature) (memberRefRow parent name signature) := by
  intro s token s' hrun
  rcases memberRefRow_eq_ok hrun with ⟨row, hfound, rfl, rfl⟩ | ⟨hfound, a, hnext, rfl⟩
  · refine ⟨.refl m _, fun t ht hroom => ⟨t, memberRefRow_found ?_, ht⟩⟩
    rcases final with _ | f
    · have hsame : SameRows s' t := ht.rows
      rwa [memberRow?, hsame.memberRefs]
    · have hsame : SameRows f t := ht.rows
      have hbegins := (hroom f rfl).memberRefs
      rw [← hsame.memberRefs] at hbegins
      exact find?_of_prefix hbegins hfound
  · refine ⟨⟨List.prefix_refl _, List.prefix_refl _, List.prefix_append _ _, fun _ _ => rfl⟩,
      fun t ht hroom => ?_⟩
    rcases final with _ | f
    · have hsame : SameRows s t := ht.rows
      have hadded : (memberRefRow parent name signature).run.run t = _ :=
        memberRefRow_added (by rwa [memberRow?, hsame.memberRefs]) (hsame.allocator ▸ hnext)
      rw [hsame.memberRefs] at hadded
      refine ⟨_, hadded, ht.withRows rfl rfl ?_⟩
      exact ⟨rfl, hsame.references, hsame.typeRefs, rfl⟩
    · have hsame : SameRows f t := ht.rows
      have hbegins := (hroom f rfl).memberRefs
      rw [← hsame.memberRefs] at hbegins
      have hfound' : memberRow? t parent name signature = some ⟨token, parent, name, signature⟩ :=
        find?_of_prefix_concat hbegins hfound (by simp)
      exact ⟨t, memberRefRow_found hfound', ht.withRows rfl rfl hsame⟩

/-! ## Types -/

theorem module_eq {source : Nat} {m : Module} (h : l.set.source? source = some m) :
    module l source = Pure.pure m := by
  unfold module
  rw [h]

namespace Twin

variable (h : Twin l l' m j)

include h

theorem source? : l.set.source? 0 = some m := by
  rw [ModuleSet.source?, h.inputs]
  rfl

theorem copy {i : Nat} (hi : i = 0 ∨ i = j) : ∃ name, l'.set.source? i = some (m.called name) := by
  obtain ⟨name, hname⟩ := h.copies i hi
  exact ⟨name, ModuleSet.source?_of_getElem? hname⟩

/-- A reference leads to the module itself, to no other input. -/
theorem inputOf?_eq {i : Nat} (hi : i = 0 ∨ i = j) {target : Option Identity}
    (htarget : ∀ identity ∈ target, identity ∈ m.references) :
    (∃ k, (k = 0 ∨ k = j) ∧ inputOf? l 0 target = some 0 ∧ inputOf? l' i target = some k) ∨
      (∃ identity, target = some identity) ∧ inputOf? l 0 target = none ∧ inputOf? l' i target = none := by
  rcases target with _ | identity
  · left
    obtain ⟨name, hcopy⟩ := h.copies i hi
    refine ⟨i, hi, ?_, ?_⟩
    · rw [inputOf?, ModuleSet.isInput, h.inputs]
      rfl
    · rw [inputOf?, ModuleSet.isInput_of_getElem? hcopy]
      rfl
  · have hsame := h.indices identity (htarget identity rfl)
    rcases hindex : l.set.inputIndex? identity.name with _ | k
    · right
      exact ⟨⟨identity, rfl⟩, hindex, hsame.trans hindex⟩
    · left
      have hlt := ModuleSet.isInput_of_inputIndex? hindex
      rw [ModuleSet.isInput, h.inputs, decide_eq_true_eq, List.length_singleton, Nat.lt_one_iff] at hlt
      subst hlt
      exact ⟨0, .inl rfl, hindex, hsame.trans hindex⟩

/-- A token that stands for a type of the module in one setting stands for the same type of the module or
of its copy in the other. -/
theorem inputType?_eq {i : Nat} (hi : i = 0 ∨ i = j) (token : Token) :
    (∃ t ∈ m.allTypes, ∃ k, (k = 0 ∨ k = j) ∧ inputType? l 0 token = some (0, t) ∧
        inputType? l' i token = some (k, t)) ∨
      inputType? l 0 token = none ∧ inputType? l' i token = none := by
  obtain ⟨name, hcopy⟩ := h.copies i hi
  have hinput : l.set.inputs[0]? = some m := by
    rw [h.inputs]
    rfl
  unfold inputType?
  split
  · rw [ModuleSet.isInput_of_getElem? hinput, ModuleSet.isInput_of_getElem? hcopy, hinput, hcopy]
    have hsame : (m.called name).findType? token = m.findType? token := rfl
    rcases htype : m.findType? token with _ | t
    · right
      simp [hsame, htype]
    · left
      refine ⟨t, (Module.mem_allTypes_of_findType? htype).1, i, hi, ?_⟩
      simp [hsame, htype]
  · split
    · rw [h.source?, ModuleSet.source?_of_getElem? hcopy]
      have htarget : (m.called name).typeRefTarget? token = m.typeRefTarget? token :=
        m.typeRefTarget?_called name token
      have hname : (m.called name).typeRefName? = m.typeRefName? := m.typeRefName?_called name
      have hreferenced : ∀ identity ∈ m.typeRefTarget? token, identity ∈ m.references :=
        fun _ => Module.mem_references_of_typeRefTarget?
      rcases h.inputOf?_eq hi hreferenced with
        ⟨k, hk, hin, hin'⟩ | ⟨-, hin, hin'⟩
      · obtain ⟨name', hcopy'⟩ := h.copies k hk
        rcases hfull : m.typeRefName? token with _ | fullName
        · right
          simp [htarget, hname, hin, hin', hfull]
        · have hsame : (m.called name').findTypeNamed? fullName = m.findTypeNamed? fullName := rfl
          rcases htype : m.findTypeNamed? fullName with _ | t
          · right
            simp [htarget, hname, hin, hin', hfull, hinput, hcopy', hsame, htype]
          · left
            refine ⟨t, Module.mem_allTypes_of_findTypeNamed? htype, k, hk, ?_⟩
            simp [htarget, hname, hin, hin', hfull, hinput, hcopy', hsame, htype]
      · right
        simp [htarget, hin, hin']
    · exact .inr ⟨rfl, rfl⟩

end Twin

theorem definition_mirrored (h : Twin l l' m j) {i : Nat} (hi : i = 0 ∨ i = j) (fullName : String) :
    Mirrored m j start final (definition l 0 fullName) (definition l' i fullName) := by
  obtain ⟨name, hcopy⟩ := h.copy hi
  unfold definition
  rw [module_eq h.source?, module_eq hcopy, pure_bind, pure_bind]
  have hsame : (m.called name).findTypeNamed? fullName = m.findTypeNamed? fullName := rfl
  rw [hsame]
  rcases htype : m.findTypeNamed? fullName with _ | type
  · exact .unbound _ _
  · have htoken : type.token ∈ m.allTypes.flatMap TypeDef.definedTokens :=
      List.mem_flatMap.2 ⟨type, Module.mem_allTypes_of_findTypeNamed? htype, List.mem_cons_self⟩
    refine (known_declared_mirrored hi htoken).bind fun known => ?_
    rcases known with _ | token
    · exact .unbound _ _
    · exact .pure token

/-- A type reference of the copy leads to the counterpart that the same reference of the module has. -/
theorem typeRefFrom_mirrored (h : Twin l l' m j) {enclosing enclosing' : Option (Token → Importing Token)}
    (henclosing : Option.Rel (fun f g => ∀ token, Mirrored m j start final (f token) (g token))
      enclosing enclosing') (token : Token) :
    Mirrored m j start final (typeRefFrom l 0 enclosing token) (typeRefFrom l' j enclosing' token) := by
  obtain ⟨name, hcopy⟩ := h.copy (.inr rfl)
  unfold typeRefFrom
  refine (known_mirrored token).bind fun known => ?_
  rcases known with _ | known
  case some => exact .pure known
  dsimp only
  rw [module_eq h.source?, module_eq hcopy, pure_bind, pure_bind]
  have hrow : (m.called name).typeRef? token = m.typeRef? token := rfl
  rw [hrow, m.typeRefName?_called, m.typeRefTarget?_called]
  rcases hfound : m.typeRef? token with _ | row
  · exact .unbound _ _
  rcases m.typeRefName? token with _ | fullName
  · exact .unbound _ _
  dsimp only
  have htoken : token ∉ m.allTypes.flatMap TypeDef.definedTokens := by
    have hmem := List.mem_of_find?_eq_some hfound
    have heq : row.token = token := by simpa using List.find?_some hfound
    exact heq ▸ h.identified.typeRef_ne hmem
  have hkeep (resolved : Token) : Mirrored m j start final
      (do keep ⟨0, token⟩ resolved; return resolved) (do keep ⟨j, token⟩ resolved; return resolved) :=
    (keep_mirrored htoken resolved).bind fun _ => .pure resolved
  have hreferenced : ∀ identity ∈ m.typeRefTarget? token, identity ∈ m.references :=
    fun _ => Module.mem_references_of_typeRefTarget?
  rcases h.inputOf?_eq (.inr rfl) hreferenced with
    ⟨k, hk, hin, hin'⟩ | ⟨⟨identity, htarget⟩, hin, hin'⟩
  · rw [hin, hin']
    exact (definition_mirrored h hk fullName).bind hkeep
  · rw [hin, hin', htarget]
    dsimp only
    rcases row.scope with index | outer | _
    · have hrange : (m.called name).references[index.toNat]? = m.references[index.toNat]? := rfl
      dsimp only
      rw [hrange]
      rcases m.references[index.toNat]? with _ | referenced
      · exact (Mirrored.unbound _ (unbound _)).bind hkeep
      · exact (reference_mirrored referenced).bind fun i => (typeRefRow_mirrored _ _ _).bind hkeep
    · rcases henclosing with henclosing | _
      · exact (henclosing outer).bind fun new => (typeRefRow_mirrored _ _ _).bind hkeep
      · exact (Mirrored.unbound _ (unbound _)).bind hkeep
    · exact (definition_mirrored h (.inr rfl) fullName).bind hkeep

theorem typeRefWithin_mirrored (h : Twin l l' m j) (steps : Nat) (token : Token) :
    Mirrored m j start final (typeRefWithin l 0 steps token) (typeRefWithin l' j steps token) := by
  induction steps generalizing token with
  | zero => exact typeRefFrom_mirrored h .none token
  | succ steps ih => exact typeRefFrom_mirrored h (.some ih) token

theorem typeRef_mirrored (h : Twin l l' m j) (token : Token) :
    Mirrored m j start final (typeRef l 0 token) (typeRef l' j token) := by
  obtain ⟨name, hcopy⟩ := h.copy (.inr rfl)
  unfold typeRef
  rw [module_eq h.source?, module_eq hcopy, pure_bind, pure_bind]
  exact typeRefWithin_mirrored h m.typeRefs.length token

/-- A token that stands for a type has the same counterpart for the copy as for the module. -/
theorem type_mirrored (h : Twin l l' m j) (token : Token) :
    Mirrored m j start final (type l 0 token) (type l' j token) := by
  obtain ⟨name, hcopy⟩ := h.copies j (.inr rfl)
  have hinput : l.set.isInput 0 := by
    rw [ModuleSet.isInput, h.inputs]
    rfl
  have hinput' := ModuleSet.isInput_of_getElem? hcopy
  unfold type
  refine (known_mirrored token).bind fun known => ?_
  rcases known with _ | known
  case some => exact .pure known
  dsimp only
  split
  · exact typeRef_mirrored h token
  · rw [if_neg (fun hnot => hnot.2 hinput), if_neg (fun hnot => hnot.2 hinput')]
    exact resolve_mirrored fun _ _ ht => ht.tokens token

/-! ## Members -/

mutual

theorem sig_mirrored {f g : Token → Importing Token}
    (hfg : ∀ token, Mirrored m j start final (f token) (g token)) :
    (sig : TypeSig) → Mirrored m j start final (sig.mapTokens f) (sig.mapTokens g)
  | .primitive p => .pure (TypeSig.primitive p)
  | .classType t => (hfg t).bind fun t => .pure (TypeSig.classType t)
  | .valueType t => (hfg t).bind fun t => .pure (TypeSig.valueType t)
  | .array s => (sig_mirrored hfg s).bind fun s => .pure s.array
  | .byRef s => (sig_mirrored hfg s).bind fun s => .pure s.byRef
  | .pointer s => (sig_mirrored hfg s).bind fun s => .pure s.pointer
  | .typeParam n => .pure (TypeSig.typeParam n)
  | .methodParam n => .pure (TypeSig.methodParam n)
  | .instantiation base arguments =>
    (sig_mirrored hfg base).bind fun base =>
      (sigs_mirrored hfg arguments).bind fun arguments => .pure (base.instantiation arguments)

theorem sigs_mirrored {f g : Token → Importing Token}
    (hfg : ∀ token, Mirrored m j start final (f token) (g token)) :
    (sigs : List TypeSig) →
      Mirrored m j start final (TypeSig.mapTokensOf f sigs) (TypeSig.mapTokensOf g sigs)
  | [] => .pure []
  | sig :: sigs =>
    (sig_mirrored hfg sig).bind fun sig => (sigs_mirrored hfg sigs).bind fun sigs => .pure (sig :: sigs)

end

theorem memberSig_mirrored {f g : Token → Importing Token}
    (hfg : ∀ token, Mirrored m j start final (f token) (g token)) (sig : MemberSig) :
    Mirrored m j start final (sig.mapTokens f) (sig.mapTokens g) := by
  rcases sig with sig | sig
  · exact (sig_mirrored hfg sig).bind fun sig => .pure (MemberSig.field sig)
  · refine Mirrored.bind ?_ fun sig => .pure (MemberSig.method sig)
    exact (sig_mirrored hfg sig.result).bind fun result =>
      (sigs_mirrored hfg sig.params).bind fun params => .pure { sig with result, params }

theorem externalMember_mirrored (h : Twin l l' m j) (r : MemberRef) :
    Mirrored m j start final (externalMember l 0 r) (externalMember l' j r) :=
  (type_mirrored h r.parent).bind fun parent =>
    (memberSig_mirrored (type_mirrored h) r.signature).bind fun signature =>
      memberRefRow_mirrored parent r.name signature

/-- The search for a member goes through the same types. -/
theorem mergedMember_mirrored (h : Twin l l' m j) (r : MemberRef) (fault fault' : Unbound) (steps : Nat)
    {t : TypeDef} (ht : t ∈ m.allTypes) {i : Nat} (hi : i = 0 ∨ i = j) :
    Mirrored m j start final (mergedMember l 0 r fault steps (0, t))
      (mergedMember l' j r fault' steps (i, t)) := by
  induction steps generalizing t i with
  | zero => exact .unbound _ _
  | succ steps ih =>
    rw [mergedMember, mergedMember, h.names i hi, h.names j (.inr rfl)]
    rcases hlookup : (t.memberKeys (l.names 0)).lookup (r.key (l.names 0)) with _ | found
    · dsimp only
      rcases t.base with _ | base
      · exact .unbound _ _
      · dsimp only
        rcases h.inputType?_eq hi base with ⟨next, hnext, k, hk, hbase, hbase'⟩ | ⟨hbase, hbase'⟩
        · rw [hbase, hbase']
          exact ih hnext hk
        · rw [hbase, hbase']
          exact externalMember_mirrored h r
    · refine resolve_mirrored fun s t' htracks => ?_
      rcases hi with rfl | rfl
      · refine htracks.declared found (List.mem_flatMap.2 ⟨t, ht, ?_⟩)
        rw [TypeDef.lookup_memberKeys] at hlookup
        obtain ⟨x, hx, rfl⟩ := Option.map_eq_some_iff.1 hlookup
        rw [TypeDef.definedTokens_eq]
        exact List.mem_cons_of_mem _ (List.mem_map_of_mem (List.mem_of_find?_eq_some hx))
      · exact htracks.tokens found

theorem memberRef_mirrored (h : Twin l l' m j) (token : Token) :
    Mirrored m j start final (memberRef l 0 token) (memberRef l' j token) := by
  obtain ⟨name, hcopy⟩ := h.copy (.inr rfl)
  unfold memberRef
  refine (known_mirrored token).bind fun known => ?_
  rcases known with _ | known
  case some => exact .pure known
  dsimp only
  rw [module_eq h.source?, module_eq hcopy, pure_bind, pure_bind]
  have hrow : (m.called name).memberRef? token = m.memberRef? token := rfl
  rw [hrow]
  rcases hfound : m.memberRef? token with _ | row
  · exact .unbound _ _
  have htoken : token ∉ m.allTypes.flatMap TypeDef.definedTokens := by
    have hmem := List.mem_of_find?_eq_some hfound
    have heq : row.token = token := by simpa using List.find?_some hfound
    exact fun hdefined => h.identified.memberRef_ne hmem (List.mem_append_left _ (heq ▸ hdefined))
  have hkeep (resolved : Token) : Mirrored m j start final
      (do keep ⟨0, token⟩ resolved; return resolved) (do keep ⟨j, token⟩ resolved; return resolved) :=
    (keep_mirrored htoken resolved).bind fun _ => .pure resolved
  dsimp only
  rcases h.inputType?_eq (.inr rfl) row.parent with ⟨t, ht, k, hk, hparent, hparent'⟩ | ⟨hparent, hparent'⟩
  · rw [hparent, hparent']
    exact (mergedMember_mirrored h row _ _ searchDepth ht hk).bind hkeep
  · rw [hparent, hparent']
    exact (externalMember_mirrored h row).bind hkeep

end

end Importing

namespace Relocation

open Importing

variable {l l' : Linkage} {m : Module} {j : Nat} {start : Substitution} {final : Option ImportTables}

/-- All references of the module are imported in the same way for the copy. -/
theorem importModule_mirrored (h : Twin l l' m j) (name : String) :
    Mirrored m j start final (importModule l 0 m) (importModule l' j (m.called name)) := by
  refine Mirrored.bind ?_ fun _ => ?_
  · exact .forM fun row _ => (typeRef_mirrored h row.token).bind fun _ => .pure PUnit.unit
  · exact .forM fun row _ => (memberRef_mirrored h row.token).bind fun _ => .pure PUnit.unit

/-- An attribute of the module itself is imported in the same way beside a copy. -/
theorem importAttribute_mirrored (h : Twin l l' m 0) (index : Nat) :
    Mirrored m 0 start final (importAttribute l ⟨.input 0, index⟩)
      (importAttribute l' ⟨.input 0, index⟩) := by
  obtain ⟨name, hcopy⟩ := h.copy (.inr rfl)
  unfold importAttribute
  dsimp only [AttributeSource.number]
  rw [module_eq h.source?, module_eq hcopy, pure_bind, pure_bind]
  have hsame : (m.called name).attributes[index]? = m.attributes[index]? := rfl
  rw [hsame]
  rcases m.attributes[index]? with _ | a
  · exact .unbound _ _
  · exact (type_mirrored h a.type).bind fun type => .pure { a with type }

end Relocation

end ModuleLinker
