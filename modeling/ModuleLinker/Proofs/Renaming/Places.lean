import ModuleLinker.Definition
import ModuleLinker.Proofs.Computation

namespace ModuleLinker

/-! # Places of tokens

What lists the tokens of a definition and what replaces them are two functions, and a place that one of
them forgets is not noticed by the other. They have the same places, in the same order, if the tokens of a
definition can be taken out and as many tokens put in their places: then replacing tokens is to take them
out, to replace them one after another and to put what comes of it back. This is shown once for each way of
putting parts together, and all that is asked of the two functions follows from it.
-/

/-- The tokens in the values of a type, and how they are replaced one by one. -/
structure TokenPlaces (α : Type) where
  tokens : α → List Token
  mapTokens : {m : Type → Type} → [Monad m] → (Token → m Token) → α → m α

namespace TokenPlaces

/-! ## Filling places -/

/-- `fill` puts tokens into the places of `x`, and what is filled has the same places. -/
structure Fills (P : TokenPlaces α) (x : α) (fill : List Token → α) : Prop where
  fill_tokens : fill (P.tokens x) = x
  tokens_fill (us : List Token) (h : us.length = (P.tokens x).length) : P.tokens (fill us) = us
  mapTokens_fill (us : List Token) (h : us.length = (P.tokens x).length) {m : Type → Type} [Monad m]
    [LawfulMonad m] (f : Token → m Token) : P.mapTokens f (fill us) = fill <$> us.mapM f

/-- Both functions have the same places in every value. -/
def Agree (P : TokenPlaces α) : Prop := ∀ x, ∃ fill, P.Fills x fill

namespace Fills

variable {α β γ : Type} {P : TokenPlaces α} {Q : TokenPlaces β} {R : TokenPlaces γ}

/-- A value without places. -/
theorem none {x : α} (htokens : P.tokens x = [])
    (hmap : ∀ {m : Type → Type} [Monad m] [LawfulMonad m] (f : Token → m Token), P.mapTokens f x = pure x) :
    P.Fills x fun _ => x := by
  have hnil {us : List Token} (h : us.length = (P.tokens x).length) : us = [] := by
    rw [htokens] at h
    exact List.eq_nil_of_length_eq_zero h
  constructor
  · rfl
  · intro us h
    rw [hnil h, htokens]
  · intro us h m _ _ f
    rw [hnil h, hmap, List.mapM_nil, map_pure]

/-- A value around one token. -/
theorem one (build : Token → α) (htokens : ∀ t, P.tokens (build t) = [t])
    (hmap : ∀ {m : Type → Type} [Monad m] [LawfulMonad m] (f : Token → m Token) t,
      P.mapTokens f (build t) = f t >>= fun u => pure (build u)) (t : Token) :
    P.Fills (build t) fun us => build (us.headD t) := by
  have hone {us : List Token} (h : us.length = (P.tokens (build t)).length) : ∃ u, us = [u] := by
    rw [htokens] at h
    exact List.length_eq_one_iff.1 h
  constructor
  · rw [htokens]
    rfl
  · intro us h
    obtain ⟨u, rfl⟩ := hone h
    exact htokens u
  · intro us h m _ _ f
    obtain ⟨u, rfl⟩ := hone h
    simp only [List.headD_cons, hmap, List.mapM_cons, List.mapM_nil, pure_bind, map_bind, map_pure]

/-- A value around another. -/
theorem within (build : α → β) {x : α} {fill : List Token → α} (hx : P.Fills x fill)
    (htokens : ∀ y, Q.tokens (build y) = P.tokens y)
    (hmap : ∀ {m : Type → Type} [Monad m] [LawfulMonad m] (f : Token → m Token) y,
      Q.mapTokens f (build y) = P.mapTokens f y >>= fun z => pure (build z)) :
    Q.Fills (build x) fun us => build (fill us) := by
  constructor
  · rw [htokens, hx.fill_tokens]
  · intro us h
    rw [htokens] at h ⊢
    exact hx.tokens_fill us h
  · intro us h m _ _ f
    rw [htokens] at h
    rw [hmap, hx.mapTokens_fill us h f, bind_pure_comp, Functor.map_map]

/-- A value of two parts, the places of the second behind those of the first. -/
theorem both (build : α → β → γ) {x : α} {y : β} {fillX : List Token → α} {fillY : List Token → β}
    (hx : P.Fills x fillX) (hy : Q.Fills y fillY)
    (htokens : ∀ a b, R.tokens (build a b) = P.tokens a ++ Q.tokens b)
    (hmap : ∀ {m : Type → Type} [Monad m] [LawfulMonad m] (f : Token → m Token) a b,
      R.mapTokens f (build a b) =
        P.mapTokens f a >>= fun a' => Q.mapTokens f b >>= fun b' => pure (build a' b')) :
    R.Fills (build x y) fun us =>
      build (fillX (us.take (P.tokens x).length)) (fillY (us.drop (P.tokens x).length)) := by
  -- as many tokens as there are places fall into those of the one part and of the other
  have hsplit {us : List Token} (h : us.length = (R.tokens (build x y)).length) :
      ∃ as bs, us = as ++ bs ∧ as.length = (P.tokens x).length ∧ bs.length = (Q.tokens y).length := by
    rw [htokens, List.length_append] at h
    refine ⟨us.take (P.tokens x).length, us.drop (P.tokens x).length,
      (List.take_append_drop ..).symm, ?_, ?_⟩
    · rw [List.length_take]
      omega
    · rw [List.length_drop]
      omega
  constructor
  · rw [htokens, List.take_left' rfl, List.drop_left' rfl, hx.fill_tokens, hy.fill_tokens]
  · intro us h
    obtain ⟨as, bs, rfl, has, hbs⟩ := hsplit h
    rw [List.take_left' has, List.drop_left' has, htokens, hx.tokens_fill as has, hy.tokens_fill bs hbs]
  · intro us h m _ _ f
    obtain ⟨as, bs, rfl, has, hbs⟩ := hsplit h
    rw [List.take_left' has, List.drop_left' has, hmap, hx.mapTokens_fill as has f,
      hy.mapTokens_fill bs hbs f, List.mapM_append]
    simp only [map_eq_pure_bind, bind_assoc, pure_bind]
    apply bind_mapM_congr
    intro as' has'
    apply bind_congr
    intro bs'
    rw [List.take_left' (has'.trans has), List.drop_left' (has'.trans has)]

end Fills

/-! ## Lists, options and pairs -/

/-- The places in the elements of a list, one element after another. -/
def list (P : TokenPlaces α) : TokenPlaces (List α) :=
  ⟨fun xs => xs.flatMap P.tokens, fun f xs => xs.mapM (P.mapTokens f)⟩

/-- The places in a value that may be missing. -/
def option (P : TokenPlaces α) : TokenPlaces (Option α) :=
  ⟨fun x => (x.map P.tokens).getD [], fun f x => x.mapM (P.mapTokens f)⟩

/-- The places in the first part and then those in the second. -/
def pair (P : TokenPlaces α) (Q : TokenPlaces β) : TokenPlaces (α × β) :=
  ⟨fun p => P.tokens p.1 ++ Q.tokens p.2, fun f p => do return (← P.mapTokens f p.1, ← Q.mapTokens f p.2)⟩

namespace Agree

variable {α β : Type} {P : TokenPlaces α} {Q : TokenPlaces β}

theorem list (h : P.Agree) : P.list.Agree := by
  intro xs
  induction xs with
  | nil => exact ⟨_, .none rfl fun _ => rfl⟩
  | cons x xs ih =>
    obtain ⟨fillX, hx⟩ := h x
    obtain ⟨fillXs, hxs⟩ := ih
    exact ⟨_, hx.both List.cons hxs (fun _ _ => List.flatMap_cons) fun _ _ _ => List.mapM_cons⟩

theorem option (h : P.Agree) : P.option.Agree := by
  intro x
  cases x with
  | none => exact ⟨_, .none rfl fun _ => rfl⟩
  | some x =>
    obtain ⟨fill, hx⟩ := h x
    exact ⟨_, hx.within some (fun _ => rfl) fun _ _ => map_eq_pure_bind _ _⟩

theorem pair (hP : P.Agree) (hQ : Q.Agree) : (P.pair Q).Agree := by
  intro ⟨x, y⟩
  obtain ⟨fillX, hx⟩ := hP x
  obtain ⟨fillY, hy⟩ := hQ y
  exact ⟨_, hx.both Prod.mk hy (fun _ _ => rfl) fun _ _ _ => rfl⟩

end Agree

/-! ## What follows -/

/-- The tokens are listed and replaced at the same places in the same order. -/
structure Lawful (P : TokenPlaces α) : Prop where
  /-- In the places of the tokens stands what they were replaced by, one after another. -/
  visits (x : α) {m : Type → Type} [Monad m] [LawfulMonad m] (f : Token → m Token) :
    P.tokens <$> P.mapTokens f x = (P.tokens x).mapM f
  /-- Where each of the tokens has an answer, there is a result, and its tokens are the answers. -/
  answers (x : α) {ε : Type} (f : Token → Except ε Token) (h : ∀ t ∈ P.tokens x, (f t).isOk) :
    ∃ y, P.mapTokens f x = .ok y ∧ (P.tokens x).map f = (P.tokens y).map .ok
  identity (x : α) {m : Type → Type} [Monad m] [LawfulMonad m] :
    P.mapTokens (m := m) pure x = pure x
  composes {x y : α} {ε : Type} (f g : Token → Except ε Token) (h : P.mapTokens f x = .ok y) :
    P.mapTokens g y = P.mapTokens (fun t => f t >>= g) x
  congr (x : α) {m : Type → Type} [Monad m] [LawfulMonad m] (f g : Token → m Token)
    (h : ∀ t ∈ P.tokens x, f t = g t) : P.mapTokens f x = P.mapTokens g x
  /-- The error is that of the first token that has one. -/
  fails_iff (x : α) {ε : Type} (f : Token → Except ε Token) (e : ε) :
    P.mapTokens f x = .error e ↔ ∃ before t after, P.tokens x = before ++ t :: after ∧
      (∀ u ∈ before, (f u).isOk) ∧ f t = .error e

section

variable {α : Type} {P : TokenPlaces α} {x : α} {fill : List Token → α}

/-- To replace tokens is to take them out, to replace them and to put them back. -/
theorem Fills.mapTokens_eq (h : P.Fills x fill) {m : Type → Type} [Monad m] [LawfulMonad m]
    (f : Token → m Token) : P.mapTokens f x = fill <$> (P.tokens x).mapM f := by
  have hfill := h.mapTokens_fill (P.tokens x) rfl f
  rwa [h.fill_tokens] at hfill

theorem Fills.tokens_map (h : P.Fills x fill) {m : Type → Type} [Monad m] [LawfulMonad m]
    (f : Token → m Token) : P.tokens <$> P.mapTokens f x = (P.tokens x).mapM f := by
  rw [h.mapTokens_eq, Functor.map_map, map_eq_pure_bind]
  conv_rhs => rw [← bind_pure ((P.tokens x).mapM f)]
  exact bind_mapM_congr fun us hus => congrArg pure (h.tokens_fill us hus)

theorem Agree.lawful (h : P.Agree) : P.Lawful := by
  constructor
  case visits =>
    intro x m _ _ f
    obtain ⟨fill, hfill⟩ := h x
    exact hfill.tokens_map f
  case answers =>
    intro x ε f hf
    obtain ⟨fill, hfill⟩ := h x
    have hall : (P.tokens x).mapM f = .ok ((P.tokens x).map fun t => (f t).toOption.getD t) := by
      refine mapM_list_answers fun t ht => ?_
      obtain ⟨u, hu⟩ := exists_eq_ok (hf t ht)
      rw [hu]
      rfl
    obtain ⟨y, hy⟩ : ∃ y, P.mapTokens f x = .ok y := by
      rw [hfill.mapTokens_eq, hall]
      exact ⟨_, rfl⟩
    have htokens := hfill.tokens_map f
    rw [hy] at htokens
    exact ⟨y, hy, mapM_eq_ok_iff.1 htokens.symm⟩
  case identity =>
    intro x m _ _
    obtain ⟨fill, hfill⟩ := h x
    have hpure : (P.tokens x).mapM (m := m) pure = pure (P.tokens x) :=
      (List.mapM_pure (f := id)).trans (congrArg pure (List.map_id _))
    rw [hfill.mapTokens_eq, hpure, map_pure, hfill.fill_tokens]
  case composes =>
    intro x y ε f g hy
    obtain ⟨fill, hfill⟩ := h x
    rw [hfill.mapTokens_eq] at hy
    obtain ⟨us, hus, rfl⟩ := map_eq_ok.1 hy
    have hlength : us.length = (P.tokens x).length := by
      have hlengths := congrArg List.length (mapM_eq_ok_iff.1 hus)
      rw [List.length_map, List.length_map] at hlengths
      exact hlengths.symm
    rw [hfill.mapTokens_fill us hlength, hfill.mapTokens_eq, mapM_of_mapM_eq_ok hus]
  case congr =>
    intro x m _ _ f g hfg
    obtain ⟨fill, hfill⟩ := h x
    rw [hfill.mapTokens_eq, hfill.mapTokens_eq, mapM_list_congr hfg]
  case fails_iff =>
    intro x ε f e
    obtain ⟨fill, hfill⟩ := h x
    rw [hfill.mapTokens_eq, map_eq_error, mapM_eq_error_iff]

end

end TokenPlaces

/-! ## Signatures -/

/-- A token is the one place in itself. -/
def Token.places : TokenPlaces Token := ⟨fun t => [t], fun f t => f t⟩

theorem Token.places_agree : Token.places.Agree :=
  fun t => ⟨_, .one id (fun _ => rfl) (fun _ _ => (bind_pure _).symm) t⟩

/-- The places in a type. -/
def TypeSig.places : TokenPlaces TypeSig := ⟨TypeSig.tokens, fun f s => s.mapTokens f⟩

/-- The places in several types. -/
def TypeSig.listPlaces : TokenPlaces (List TypeSig) := ⟨TypeSig.tokensOf, fun f ss => TypeSig.mapTokensOf f ss⟩

mutual

theorem TypeSig.places_agree (s : TypeSig) : ∃ fill, TypeSig.places.Fills s fill := by
  cases s with
  | primitive | typeParam | methodParam => exact ⟨_, .none rfl fun _ => rfl⟩
  | classType t => exact ⟨_, .one classType (fun _ => rfl) (fun _ _ => rfl) t⟩
  | valueType t => exact ⟨_, .one valueType (fun _ => rfl) (fun _ _ => rfl) t⟩
  | array s =>
    obtain ⟨fill, hs⟩ := places_agree s
    exact ⟨_, hs.within array (fun _ => rfl) fun _ _ => rfl⟩
  | byRef s =>
    obtain ⟨fill, hs⟩ := places_agree s
    exact ⟨_, hs.within byRef (fun _ => rfl) fun _ _ => rfl⟩
  | pointer s =>
    obtain ⟨fill, hs⟩ := places_agree s
    exact ⟨_, hs.within pointer (fun _ => rfl) fun _ _ => rfl⟩
  | instantiation base arguments =>
    obtain ⟨fillBase, hbase⟩ := places_agree base
    obtain ⟨fillArguments, harguments⟩ := listPlaces_agree arguments
    exact ⟨_, hbase.both instantiation harguments (fun _ _ => rfl) fun _ _ _ => rfl⟩

theorem TypeSig.listPlaces_agree (ss : List TypeSig) : ∃ fill, TypeSig.listPlaces.Fills ss fill := by
  cases ss with
  | nil => exact ⟨_, .none rfl fun _ => rfl⟩
  | cons s ss =>
    obtain ⟨fillS, hs⟩ := places_agree s
    obtain ⟨fillSs, hss⟩ := listPlaces_agree ss
    exact ⟨_, hs.both List.cons hss (fun _ _ => rfl) fun _ _ _ => rfl⟩

end

/-- The places in a method signature. -/
def MethodSig.places : TokenPlaces MethodSig := ⟨MethodSig.tokens, fun f s => s.mapTokens f⟩

theorem MethodSig.places_agree : MethodSig.places.Agree := by
  intro s
  obtain ⟨fillResult, hresult⟩ := TypeSig.places_agree s.result
  obtain ⟨fillParams, hparams⟩ := TypeSig.listPlaces_agree s.params
  exact ⟨_, hresult.both (fun result params => { s with result, params }) hparams
    (fun _ _ => rfl) fun _ _ _ => rfl⟩

/-- The places in a member signature. -/
def MemberSig.places : TokenPlaces MemberSig := ⟨MemberSig.tokens, fun f s => s.mapTokens f⟩

theorem MemberSig.places_agree : MemberSig.places.Agree := by
  intro s
  cases s with
  | field s =>
    obtain ⟨fill, hs⟩ := TypeSig.places_agree s
    exact ⟨_, hs.within field (fun _ => rfl) fun _ _ => rfl⟩
  | method s =>
    obtain ⟨fill, hs⟩ := MethodSig.places_agree s
    exact ⟨_, hs.within method (fun _ => rfl) fun _ _ => rfl⟩

/-! ## Bodies -/

/-- The place in an operand, if it is a token. -/
def Operand.places : TokenPlaces Operand := ⟨fun x => x.token?.toList, fun f x => x.mapTokens f⟩

theorem Operand.places_agree : Operand.places.Agree := by
  intro x
  cases x with
  | token t => exact ⟨_, .one token (fun _ => rfl) (fun _ _ => rfl) t⟩
  | none | i32 | i64 | f64 | string | branch | switch => exact ⟨_, .none rfl fun _ => rfl⟩

/-- The place in an instruction, if its operand is a token. -/
def Instruction.places : TokenPlaces Instruction :=
  ⟨fun i => i.operand.token?.toList, fun f i => i.mapTokens f⟩

theorem Instruction.places_agree : Instruction.places.Agree := by
  intro i
  obtain ⟨fill, hi⟩ := Operand.places_agree i.operand
  exact ⟨_, hi.within (fun operand => { i with operand }) (fun _ => rfl) fun _ _ => rfl⟩

/-- The place in a handler, if it catches a type. -/
def Handler.places : TokenPlaces Handler := ⟨fun x => x.catchType.toList, fun f x => x.mapTokens f⟩

theorem Handler.places_agree : Handler.places.Agree := by
  intro x
  rcases x with ⟨kind, tryOffset, tryLength, handlerOffset, handlerLength, _ | t, filterOffset⟩
  · exact ⟨_, .none rfl fun _ => rfl⟩
  · let build (t : Token) : Handler :=
      { kind, tryOffset, tryLength, handlerOffset, handlerLength, catchType := some t, filterOffset }
    exact ⟨_, .one build (fun _ => rfl) (fun _ _ => rfl) t⟩

/-- The places in a body. -/
def MethodBody.places : TokenPlaces MethodBody := ⟨MethodBody.tokens, fun f b => b.mapTokens f⟩

theorem MethodBody.places_agree : MethodBody.places.Agree := by
  intro b
  obtain ⟨fillLocals, hlocals⟩ := TypeSig.listPlaces_agree b.locals
  obtain ⟨fillCode, hcode⟩ := (Instruction.places_agree.list.pair Handler.places_agree.list) (b.code, b.handlers)
  refine ⟨_, hlocals.both (fun locals p => { b with locals, code := p.1, handlers := p.2 }) hcode
    (fun locals p => ?_) fun f locals p => ?_⟩
  · show MethodBody.tokens _ = _
    rw [MethodBody.tokens, List.filterMap_eq_flatMap_toList, List.filterMap_eq_flatMap_toList,
      List.append_assoc]
    rfl
  · simp only [MethodBody.places, MethodBody.mapTokens, TokenPlaces.pair, TokenPlaces.list, bind_assoc,
      pure_bind]
    rfl

/-! ## Members -/

/-- The place in an attribute. -/
def Attribute.places : TokenPlaces Attribute := ⟨fun a => [a.type], fun f a => a.mapTokens f⟩

theorem Attribute.places_agree : Attribute.places.Agree :=
  fun a => ⟨_, .one (fun type => { a with type }) (fun _ => rfl) (fun _ _ => rfl) a.type⟩

theorem Attribute.tokensOf_eq (as : List Attribute) : Attribute.tokensOf as = as.flatMap fun a => [a.type] :=
  List.map_eq_flatMap

/-- The places in a field, its own token first. -/
def Field.places : TokenPlaces Field := ⟨fun x => x.token :: x.tokens, fun f x => x.mapTokens f⟩

theorem Field.places_agree : Field.places.Agree := by
  intro x
  have hagree : (TypeSig.places.pair Attribute.places.list).Agree :=
    .pair TypeSig.places_agree Attribute.places_agree.list
  obtain ⟨fillToken, htoken⟩ := Token.places_agree x.token
  obtain ⟨fillParts, hparts⟩ := hagree (x.signature, x.attributes)
  refine ⟨_, htoken.both (fun token p => { x with token, signature := p.1, attributes := p.2 }) hparts
    (fun token p => ?_) fun f token p => ?_⟩
  · show _ :: Field.tokens _ = _
    rw [Field.tokens, Attribute.tokensOf_eq]
    rfl
  · simp only [TokenPlaces.pair, bind_assoc, pure_bind]
    rfl

/-- The places in a method, its own token first. -/
def Method.places : TokenPlaces Method := ⟨fun x => x.token :: x.tokens, fun f x => x.mapTokens f⟩

theorem Method.places_agree : Method.places.Agree := by
  intro x
  have hagree : (MethodSig.places.pair (MethodBody.places.option.pair Attribute.places.list)).Agree :=
    .pair MethodSig.places_agree (.pair MethodBody.places_agree.option Attribute.places_agree.list)
  obtain ⟨fillToken, htoken⟩ := Token.places_agree x.token
  obtain ⟨fillParts, hparts⟩ := hagree (x.signature, x.body, x.attributes)
  refine ⟨_, htoken.both
    (fun token p => { x with token, signature := p.1, body := p.2.1, attributes := p.2.2 }) hparts
    (fun token p => ?_) fun f token p => ?_⟩
  · show _ :: Method.tokens _ = _
    rw [Method.tokens, Attribute.tokensOf_eq, List.append_assoc]
    rfl
  · simp only [TokenPlaces.pair, bind_assoc, pure_bind]
    rfl

theorem Token.toList_eq (t : Option Token) : t.toList = Token.places.option.tokens t := by
  cases t <;> rfl

/-- The places in a property, its own token first. -/
def Property.places : TokenPlaces Property := ⟨fun x => x.token :: x.tokens, fun f x => x.mapTokens f⟩

theorem Property.places_agree : Property.places.Agree := by
  intro x
  have haccessor : Token.places.option.Agree := Token.places_agree.option
  have hagree : (TypeSig.places.pair (Token.places.option.pair
      (Token.places.option.pair Attribute.places.list))).Agree :=
    .pair TypeSig.places_agree (.pair haccessor (.pair haccessor Attribute.places_agree.list))
  obtain ⟨fillToken, htoken⟩ := Token.places_agree x.token
  obtain ⟨fillParts, hparts⟩ := hagree (x.signature, x.getter, x.setter, x.attributes)
  refine ⟨_, htoken.both (fun token p => { x with
      token, signature := p.1, getter := p.2.1, setter := p.2.2.1, attributes := p.2.2.2 }) hparts
    (fun token p => ?_) fun f token p => ?_⟩
  · show _ :: Property.tokens _ = _
    rw [Property.tokens, Attribute.tokensOf_eq, Token.toList_eq, Token.toList_eq, List.append_assoc,
      List.append_assoc]
    rfl
  · simp only [TokenPlaces.pair, bind_assoc, pure_bind]
    rfl

/-- The places in an event, its own token first. -/
def Event.places : TokenPlaces Event := ⟨fun x => x.token :: x.tokens, fun f x => x.mapTokens f⟩

theorem Event.places_agree : Event.places.Agree := by
  intro x
  have haccessor : Token.places.option.Agree := Token.places_agree.option
  have hagree : (Token.places.pair (Token.places.option.pair
      (Token.places.option.pair Attribute.places.list))).Agree :=
    .pair Token.places_agree (.pair haccessor (.pair haccessor Attribute.places_agree.list))
  obtain ⟨fillToken, htoken⟩ := Token.places_agree x.token
  obtain ⟨fillParts, hparts⟩ := hagree (x.eventType, x.add, x.remove, x.attributes)
  refine ⟨_, htoken.both (fun token p => { x with
      token, eventType := p.1, add := p.2.1, remove := p.2.2.1, attributes := p.2.2.2 }) hparts
    (fun token p => ?_) fun f token p => ?_⟩
  · show _ :: Event.tokens _ = _
    rw [Event.tokens, Attribute.tokensOf_eq, Token.toList_eq, Token.toList_eq, List.append_assoc]
    rfl
  · simp only [TokenPlaces.pair, bind_assoc, pure_bind]
    rfl

end ModuleLinker
