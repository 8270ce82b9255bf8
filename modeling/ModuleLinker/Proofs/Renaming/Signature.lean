import ModuleLinker.Proofs.Computation
import ModuleLinker.Signature.Basic

namespace ModuleLinker

/-! # Renaming signatures

`mapTokens` replaces tokens one by one and may fail at each. `rename` is what it amounts to where it
does not fail: every token is replaced by the same function, and all else stays.
-/

/-- Wherever `f` answers a token, its answer is that of `g`. -/
def Follows (f : Token → Except ε Token) (g : Token → Token) : Prop := ∀ t u, f t = .ok u → u = g t

/-- `f` answers each of the tokens. -/
def AnswersAll (f : Token → Except ε Token) (g : Token → Token) (tokens : List Token) : Prop :=
  ∀ t ∈ tokens, f t = .ok (g t)

theorem AnswersAll.append {f : Token → Except ε Token} {g : Token → Token} {ts us : List Token}
    (ht : AnswersAll f g ts) (hu : AnswersAll f g us) : AnswersAll f g (ts ++ us) :=
  List.forall_mem_append.2 ⟨ht, hu⟩

/-- Whatever answers a token follows its own answers. -/
theorem follows_self (f : Token → Except ε Token) : Follows f fun t => (f t).toOption.getD t := by
  intro t u hu
  dsimp only
  rw [hu]
  rfl

section

variable {f : Token → Except ε Token} {g : Token → Token}

theorem token_ok (hfg : Follows f g) {t u : Token} (h : f t = .ok u) : u = g t ∧ f t = .ok (g t) := by
  have hu := hfg t u h
  exact ⟨hu, hu ▸ h⟩

/-! ## Signatures -/

namespace TypeSig

mutual

/-- The type with each token replaced. -/
def rename (g : Token → Token) : TypeSig → TypeSig
  | .primitive p => .primitive p
  | .classType t => .classType (g t)
  | .valueType t => .valueType (g t)
  | .array s => .array (s.rename g)
  | .byRef s => .byRef (s.rename g)
  | .pointer s => .pointer (s.rename g)
  | .typeParam n => .typeParam n
  | .methodParam n => .methodParam n
  | .instantiation base arguments => .instantiation (base.rename g) (renameAll g arguments)

/-- The types with each token replaced. -/
def renameAll (g : Token → Token) : List TypeSig → List TypeSig
  | [] => []
  | s :: rest => s.rename g :: renameAll g rest

end

mutual

theorem mapTokens_ok (hfg : Follows f g) (s : TypeSig) {s' : TypeSig}
    (h : s.mapTokens f = .ok s') : s' = s.rename g ∧ AnswersAll f g s.tokens := by
  cases s with
  | primitive p =>
    cases h
    exact ⟨rfl, nofun⟩
  | classType t =>
    rcases bind_eq_ok.1 h with ⟨u, hu, h⟩
    cases h
    rcases token_ok hfg hu with ⟨rfl, ht⟩
    exact ⟨rfl, by simpa [AnswersAll, tokens] using ht⟩
  | valueType t =>
    rcases bind_eq_ok.1 h with ⟨u, hu, h⟩
    cases h
    rcases token_ok hfg hu with ⟨rfl, ht⟩
    exact ⟨rfl, by simpa [AnswersAll, tokens] using ht⟩
  | array s =>
    rcases bind_eq_ok.1 h with ⟨u, hu, h⟩
    cases h
    rcases mapTokens_ok hfg s hu with ⟨rfl, hs⟩
    exact ⟨rfl, hs⟩
  | byRef s =>
    rcases bind_eq_ok.1 h with ⟨u, hu, h⟩
    cases h
    rcases mapTokens_ok hfg s hu with ⟨rfl, hs⟩
    exact ⟨rfl, hs⟩
  | pointer s =>
    rcases bind_eq_ok.1 h with ⟨u, hu, h⟩
    cases h
    rcases mapTokens_ok hfg s hu with ⟨rfl, hs⟩
    exact ⟨rfl, hs⟩
  | typeParam n =>
    cases h
    exact ⟨rfl, nofun⟩
  | methodParam n =>
    cases h
    exact ⟨rfl, nofun⟩
  | instantiation base arguments =>
    rcases bind_eq_ok.1 h with ⟨b, hb, h⟩
    rcases bind_eq_ok.1 h with ⟨as, has, h⟩
    cases h
    rcases mapTokens_ok hfg base hb with ⟨rfl, hbase⟩
    rcases mapTokensOf_ok hfg arguments has with ⟨rfl, harguments⟩
    exact ⟨rfl, hbase.append harguments⟩

theorem mapTokensOf_ok (hfg : Follows f g) (ss : List TypeSig) {ss' : List TypeSig}
    (h : mapTokensOf f ss = .ok ss') : ss' = renameAll g ss ∧ AnswersAll f g (tokensOf ss) := by
  cases ss with
  | nil =>
    cases h
    exact ⟨rfl, nofun⟩
  | cons s ss =>
    rcases bind_eq_ok.1 h with ⟨u, hu, h⟩
    rcases bind_eq_ok.1 h with ⟨us, hus, h⟩
    cases h
    rcases mapTokens_ok hfg s hu with ⟨rfl, hs⟩
    rcases mapTokensOf_ok hfg ss hus with ⟨rfl, hss⟩
    exact ⟨rfl, hs.append hss⟩

end

mutual

/-- Where all tokens are answered, so is the type. -/
theorem mapTokens_answers (s : TypeSig) (h : AnswersAll f g s.tokens) :
    s.mapTokens f = .ok (s.rename g) := by
  cases s with
  | primitive p => rfl
  | classType t =>
    rw [mapTokens, h t List.mem_cons_self]
    rfl
  | valueType t =>
    rw [mapTokens, h t List.mem_cons_self]
    rfl
  | array s =>
    rw [mapTokens, mapTokens_answers s h]
    rfl
  | byRef s =>
    rw [mapTokens, mapTokens_answers s h]
    rfl
  | pointer s =>
    rw [mapTokens, mapTokens_answers s h]
    rfl
  | typeParam n => rfl
  | methodParam n => rfl
  | instantiation base arguments =>
    obtain ⟨hbase, harguments⟩ := List.forall_mem_append.1 h
    rw [mapTokens]
    refine bind_eq_ok.2 ⟨_, mapTokens_answers base hbase, ?_⟩
    exact bind_eq_ok.2 ⟨_, mapTokensOf_answers arguments harguments, rfl⟩

theorem mapTokensOf_answers (ss : List TypeSig) (h : AnswersAll f g (tokensOf ss)) :
    mapTokensOf f ss = .ok (renameAll g ss) := by
  cases ss with
  | nil => rfl
  | cons s ss =>
    obtain ⟨hs, hss⟩ := List.forall_mem_append.1 h
    rw [mapTokensOf]
    refine bind_eq_ok.2 ⟨_, mapTokens_answers s hs, ?_⟩
    exact bind_eq_ok.2 ⟨_, mapTokensOf_answers ss hss, rfl⟩

end

/-- More answers for tokens leave the answer for a type. -/
theorem mapTokens_refine {f' : Token → Except ε Token} (hf : ∀ t u, f t = .ok u → f' t = .ok u)
    {s s' : TypeSig} (h : s.mapTokens f = .ok s') : s.mapTokens f' = .ok s' := by
  obtain ⟨rfl, hs⟩ := mapTokens_ok (follows_self f) s h
  exact mapTokens_answers s fun t ht => hf _ _ (hs t ht)

mutual

theorem tokens_rename (g : Token → Token) (s : TypeSig) : (s.rename g).tokens = s.tokens.map g := by
  cases s with
  | primitive p => rfl
  | classType t => rfl
  | valueType t => rfl
  | array s => exact tokens_rename g s
  | byRef s => exact tokens_rename g s
  | pointer s => exact tokens_rename g s
  | typeParam n => rfl
  | methodParam n => rfl
  | instantiation base arguments =>
    rw [rename, tokens, tokens_rename g base, tokensOf_renameAll g arguments, tokens, List.map_append]

theorem tokensOf_renameAll (g : Token → Token) (ss : List TypeSig) :
    tokensOf (renameAll g ss) = (tokensOf ss).map g := by
  cases ss with
  | nil => rfl
  | cons s ss =>
    rw [renameAll, tokensOf, tokens_rename g s, tokensOf_renameAll g ss, tokensOf, List.map_append]

end

end TypeSig

namespace MethodSig

/-- The signature with each token replaced. -/
def rename (g : Token → Token) (s : MethodSig) : MethodSig :=
  { s with result := s.result.rename g, params := TypeSig.renameAll g s.params }

theorem mapTokens_ok (hfg : Follows f g) {s s' : MethodSig} (h : s.mapTokens f = .ok s') :
    s' = s.rename g ∧ AnswersAll f g s.tokens := by
  rcases bind_eq_ok.1 h with ⟨result, hresult, h⟩
  rcases bind_eq_ok.1 h with ⟨params, hparams, h⟩
  cases h
  rcases TypeSig.mapTokens_ok hfg s.result hresult with ⟨rfl, hr⟩
  rcases TypeSig.mapTokensOf_ok hfg s.params hparams with ⟨rfl, hp⟩
  exact ⟨rfl, hr.append hp⟩

theorem mapTokens_answers {s : MethodSig} (h : AnswersAll f g s.tokens) :
    s.mapTokens f = .ok (s.rename g) := by
  obtain ⟨hresult, hparams⟩ := List.forall_mem_append.1 h
  rw [mapTokens]
  refine bind_eq_ok.2 ⟨_, TypeSig.mapTokens_answers s.result hresult, ?_⟩
  exact bind_eq_ok.2 ⟨_, TypeSig.mapTokensOf_answers s.params hparams, rfl⟩

theorem tokens_rename (g : Token → Token) (s : MethodSig) : (s.rename g).tokens = s.tokens.map g := by
  simp only [tokens, rename, TypeSig.tokens_rename, TypeSig.tokensOf_renameAll, List.map_append]

end MethodSig

namespace MemberSig

/-- The signature with each token replaced. -/
def rename (g : Token → Token) : MemberSig → MemberSig
  | .field s => .field (s.rename g)
  | .method s => .method (s.rename g)

theorem mapTokens_ok (hfg : Follows f g) {s s' : MemberSig} (h : s.mapTokens f = .ok s') :
    s' = s.rename g ∧ AnswersAll f g s.tokens := by
  cases s with
  | field s =>
    obtain ⟨u, hu, h⟩ := bind_eq_ok.1 h
    cases h
    obtain ⟨rfl, hs⟩ := TypeSig.mapTokens_ok hfg s hu
    exact ⟨rfl, hs⟩
  | method s =>
    obtain ⟨u, hu, h⟩ := bind_eq_ok.1 h
    cases h
    obtain ⟨rfl, hs⟩ := MethodSig.mapTokens_ok hfg hu
    exact ⟨rfl, hs⟩

theorem mapTokens_answers {s : MemberSig} (h : AnswersAll f g s.tokens) :
    s.mapTokens f = .ok (s.rename g) := by
  cases s with
  | field s =>
    rw [mapTokens, TypeSig.mapTokens_answers s h]
    rfl
  | method s =>
    rw [mapTokens, MethodSig.mapTokens_answers h]
    rfl

/-- More answers for tokens leave the answer for a signature. -/
theorem mapTokens_refine {f' : Token → Except ε Token} (hf : ∀ t u, f t = .ok u → f' t = .ok u)
    {s s' : MemberSig} (h : s.mapTokens f = .ok s') : s.mapTokens f' = .ok s' := by
  obtain ⟨rfl, hs⟩ := mapTokens_ok (follows_self f) h
  exact mapTokens_answers fun t ht => hf _ _ (hs t ht)

end MemberSig

end

end ModuleLinker
