import ModuleLinker.Definition
import ModuleLinker.Proofs.Renaming.Signature

namespace ModuleLinker

/-! # Renaming members

The members of types with every token replaced by the same function: their own tokens, those of
signatures and locals, operands, caught types, accessors, and the types of events and attributes.
-/

section

variable {f : Token → Except ε Token} {g : Token → Token}

/-! ## Attributes -/

namespace Attribute

/-- The attribute with the token of its type replaced. -/
def rename (g : Token → Token) (a : Attribute) : Attribute := { a with type := g a.type }

theorem mapTokens_ok (hfg : Follows f g) {a a' : Attribute} (h : a.mapTokens f = .ok a') :
    a' = a.rename g ∧ f a.type = .ok (g a.type) := by
  rcases bind_eq_ok.1 h with ⟨type, htype, h⟩
  cases h
  rcases token_ok hfg htype with ⟨rfl, ht⟩
  exact ⟨rfl, ht⟩

theorem mapM_mapTokens_answers {as : List Attribute} (h : AnswersAll f g (tokensOf as)) :
    as.mapM (mapTokens f) = .ok (as.map (rename g)) := by
  refine mapM_list_answers fun a ha => ?_
  rw [mapTokens, h a.type (List.mem_map_of_mem ha)]
  rfl

theorem mapM_mapTokens_ok (hfg : Follows f g) {as as' : List Attribute}
    (h : as.mapM (mapTokens f) = .ok as') :
    as' = as.map (rename g) ∧ AnswersAll f g (tokensOf as) := by
  rcases mapM_list_ok (fun _ _ => mapTokens_ok hfg) h with ⟨rfl, has⟩
  exact ⟨rfl, by simpa [AnswersAll, tokensOf] using has⟩

theorem tokensOf_map_rename (g : Token → Token) (as : List Attribute) :
    tokensOf (as.map (rename g)) = (tokensOf as).map g := by
  simp only [tokensOf, List.map_map]
  rfl

end Attribute

/-! ## Bodies -/

namespace Operand

/-- The operand with its token replaced. -/
def rename (g : Token → Token) : Operand → Operand
  | .token t => .token (g t)
  | other => other

theorem mapTokens_ok (hfg : Follows f g) {x x' : Operand} (h : x.mapTokens f = .ok x') :
    x' = x.rename g ∧ AnswersAll f g x.token?.toList := by
  cases x with
  | token t =>
    rcases bind_eq_ok.1 h with ⟨u, hu, h⟩
    cases h
    rcases token_ok hfg hu with ⟨rfl, ht⟩
    exact ⟨rfl, by simpa [AnswersAll, token?] using ht⟩
  | none | i32 | i64 | f64 | string | branch | switch =>
    cases h
    exact ⟨rfl, nofun⟩

theorem mapTokens_answers {x : Operand} (h : AnswersAll f g x.token?.toList) :
    x.mapTokens f = .ok (x.rename g) := by
  cases x with
  | token t =>
    rw [mapTokens, h t List.mem_cons_self]
    rfl
  | none | i32 | i64 | f64 | string | branch | switch => rfl

theorem token?_rename (g : Token → Token) (x : Operand) : (x.rename g).token? = x.token?.map g := by
  cases x <;> rfl

end Operand

namespace Instruction

/-- The instruction with the token of its operand replaced. -/
def rename (g : Token → Token) (i : Instruction) : Instruction :=
  { i with operand := i.operand.rename g }

theorem mapTokens_ok (hfg : Follows f g) {i i' : Instruction} (h : i.mapTokens f = .ok i') :
    i' = i.rename g ∧ AnswersAll f g i.operand.token?.toList := by
  rcases bind_eq_ok.1 h with ⟨operand, hoperand, h⟩
  cases h
  rcases Operand.mapTokens_ok hfg hoperand with ⟨rfl, ht⟩
  exact ⟨rfl, ht⟩

theorem mapTokens_answers {i : Instruction} (h : AnswersAll f g i.operand.token?.toList) :
    i.mapTokens f = .ok (i.rename g) := by
  rw [mapTokens, Operand.mapTokens_answers h]
  rfl

end Instruction

namespace Handler

/-- The handler with the token of the caught type replaced. -/
def rename (g : Token → Token) (h : Handler) : Handler := { h with catchType := h.catchType.map g }

theorem mapTokens_ok (hfg : Follows f g) {x x' : Handler} (h : x.mapTokens f = .ok x') :
    x' = x.rename g ∧ AnswersAll f g x.catchType.toList := by
  rcases x with ⟨kind, tryOffset, tryLength, handlerOffset, handlerLength, _ | t, filterOffset⟩
  · cases h
    exact ⟨rfl, nofun⟩
  · rcases bind_eq_ok.1 h with ⟨u, hu, h⟩
    cases h
    rcases token_ok hfg hu with ⟨rfl, ht⟩
    exact ⟨rfl, by simpa [AnswersAll] using ht⟩

theorem mapTokens_answers {x : Handler} (h : AnswersAll f g x.catchType.toList) :
    x.mapTokens f = .ok (x.rename g) := by
  rcases x with ⟨kind, tryOffset, tryLength, handlerOffset, handlerLength, _ | t, filterOffset⟩
  · rfl
  · dsimp only [mapTokens]
    rw [h t List.mem_cons_self]
    rfl

end Handler

namespace MethodBody

/-- The body with each token replaced. -/
def rename (g : Token → Token) (b : MethodBody) : MethodBody :=
  { b with
    locals := TypeSig.renameAll g b.locals
    code := b.code.map (Instruction.rename g)
    handlers := b.handlers.map (Handler.rename g) }

theorem answersAll_filterMap {xs : List α} {token? : α → Option Token}
    (h : ∀ x ∈ xs, AnswersAll f g (token? x).toList) : AnswersAll f g (xs.filterMap token?) := by
  intro t ht
  rcases List.mem_filterMap.1 ht with ⟨x, hx, hxt⟩
  exact h x hx t (by simp [hxt])

theorem mapTokens_ok (hfg : Follows f g) {b b' : MethodBody} (h : b.mapTokens f = .ok b') :
    b' = b.rename g ∧ AnswersAll f g b.tokens := by
  rcases bind_eq_ok.1 h with ⟨locals, hlocals, h⟩
  rcases bind_eq_ok.1 h with ⟨code, hcode, h⟩
  rcases bind_eq_ok.1 h with ⟨handlers, hhandlers, h⟩
  cases h
  rcases TypeSig.mapTokensOf_ok hfg b.locals hlocals with ⟨rfl, hl⟩
  rcases mapM_list_ok (fun _ _ => Instruction.mapTokens_ok hfg) hcode with ⟨rfl, hc⟩
  rcases mapM_list_ok (fun _ _ => Handler.mapTokens_ok hfg) hhandlers with ⟨rfl, hh⟩
  exact ⟨rfl, (hl.append (answersAll_filterMap hc)).append (answersAll_filterMap hh)⟩

theorem answersAll_of_filterMap {xs : List α} {token? : α → Option Token}
    (h : AnswersAll f g (xs.filterMap token?)) : ∀ x ∈ xs, AnswersAll f g (token? x).toList :=
  fun x hx t ht => h t (List.mem_filterMap.2 ⟨x, hx, Option.mem_toList.1 ht⟩)

theorem mapTokens_answers {b : MethodBody} (h : AnswersAll f g b.tokens) :
    b.mapTokens f = .ok (b.rename g) := by
  obtain ⟨hleft, hhandlers⟩ := List.forall_mem_append.1 h
  obtain ⟨hlocals, hcode⟩ := List.forall_mem_append.1 hleft
  have hinstructions := mapM_list_answers fun i hi =>
    Instruction.mapTokens_answers (answersAll_of_filterMap hcode i hi)
  have hcaught := mapM_list_answers fun x hx =>
    Handler.mapTokens_answers (answersAll_of_filterMap hhandlers x hx)
  rw [mapTokens]
  refine bind_eq_ok.2 ⟨_, TypeSig.mapTokensOf_answers b.locals hlocals, ?_⟩
  refine bind_eq_ok.2 ⟨_, hinstructions, ?_⟩
  exact bind_eq_ok.2 ⟨_, hcaught, rfl⟩

theorem tokens_rename (g : Token → Token) (b : MethodBody) : (b.rename g).tokens = b.tokens.map g := by
  have hcode : (b.code.map (Instruction.rename g)).filterMap (·.operand.token?) =
      (b.code.filterMap (·.operand.token?)).map g := by
    rw [List.filterMap_map, List.map_filterMap]
    exact List.filterMap_congr fun i _ => Operand.token?_rename g i.operand
  have hhandlers : (b.handlers.map (Handler.rename g)).filterMap (·.catchType) =
      (b.handlers.filterMap (·.catchType)).map g := by
    rw [List.filterMap_map, List.map_filterMap]
    rfl
  simp only [tokens, rename, TypeSig.tokensOf_renameAll, hcode, hhandlers, List.map_append]

end MethodBody

/-! ## Members -/

namespace Field

/-- The field with each token replaced. -/
def rename (g : Token → Token) (x : Field) : Field :=
  { x with
    token := g x.token
    signature := x.signature.rename g
    attributes := x.attributes.map (Attribute.rename g) }

theorem mapTokens_ok (hfg : Follows f g) {x x' : Field} (h : x.mapTokens f = .ok x') :
    x' = x.rename g ∧ AnswersAll f g (x.token :: x.tokens) := by
  rcases bind_eq_ok.1 h with ⟨token, htoken, h⟩
  rcases bind_eq_ok.1 h with ⟨signature, hsignature, h⟩
  rcases bind_eq_ok.1 h with ⟨attributes, hattributes, h⟩
  cases h
  rcases token_ok hfg htoken with ⟨rfl, ht⟩
  rcases TypeSig.mapTokens_ok hfg x.signature hsignature with ⟨rfl, hs⟩
  rcases Attribute.mapM_mapTokens_ok hfg hattributes with ⟨rfl, ha⟩
  exact ⟨rfl, List.forall_mem_cons.2 ⟨ht, hs.append ha⟩⟩

theorem mapTokens_answers {x : Field} (h : AnswersAll f g (x.token :: x.tokens)) :
    x.mapTokens f = .ok (x.rename g) := by
  obtain ⟨htoken, hrest⟩ := List.forall_mem_cons.1 h
  obtain ⟨hsignature, hattributes⟩ := List.forall_mem_append.1 hrest
  rw [mapTokens]
  refine bind_eq_ok.2 ⟨_, htoken, ?_⟩
  refine bind_eq_ok.2 ⟨_, TypeSig.mapTokens_answers x.signature hsignature, ?_⟩
  exact bind_eq_ok.2 ⟨_, Attribute.mapM_mapTokens_answers hattributes, rfl⟩

theorem tokens_rename (g : Token → Token) (x : Field) : (x.rename g).tokens = x.tokens.map g := by
  simp only [tokens, rename, TypeSig.tokens_rename, Attribute.tokensOf_map_rename, List.map_append]

end Field

namespace Method

/-- The method with each token replaced. -/
def rename (g : Token → Token) (x : Method) : Method :=
  { x with
    token := g x.token
    signature := x.signature.rename g
    body := x.body.map (MethodBody.rename g)
    attributes := x.attributes.map (Attribute.rename g) }

theorem mapTokens_ok (hfg : Follows f g) {x x' : Method} (h : x.mapTokens f = .ok x') :
    x' = x.rename g ∧ AnswersAll f g (x.token :: x.tokens) := by
  rcases bind_eq_ok.1 h with ⟨token, htoken, h⟩
  rcases bind_eq_ok.1 h with ⟨signature, hsignature, h⟩
  rcases bind_eq_ok.1 h with ⟨body, hbody, h⟩
  rcases bind_eq_ok.1 h with ⟨attributes, hattributes, h⟩
  cases h
  rcases token_ok hfg htoken with ⟨rfl, ht⟩
  rcases MethodSig.mapTokens_ok hfg hsignature with ⟨rfl, hs⟩
  rcases mapM_option_ok (fun _ _ => MethodBody.mapTokens_ok hfg) hbody with ⟨rfl, hb⟩
  rcases Attribute.mapM_mapTokens_ok hfg hattributes with ⟨rfl, ha⟩
  have hbodyTokens : AnswersAll f g ((x.body.map MethodBody.tokens).getD []) := by
    rcases hx : x.body with _ | b
    · exact nofun
    · exact hb b hx
  exact ⟨rfl, List.forall_mem_cons.2 ⟨ht, (hs.append hbodyTokens).append ha⟩⟩

theorem mapTokens_answers {x : Method} (h : AnswersAll f g (x.token :: x.tokens)) :
    x.mapTokens f = .ok (x.rename g) := by
  obtain ⟨htoken, hrest⟩ := List.forall_mem_cons.1 h
  obtain ⟨hleft, hattributes⟩ := List.forall_mem_append.1 hrest
  obtain ⟨hsignature, hbody⟩ := List.forall_mem_append.1 hleft
  have hbodies : x.body.mapM (MethodBody.mapTokens f) = .ok (x.body.map (MethodBody.rename g)) := by
    refine mapM_option_answers fun b hb => MethodBody.mapTokens_answers ?_
    rwa [Option.mem_def.1 hb] at hbody
  rw [mapTokens]
  refine bind_eq_ok.2 ⟨_, htoken, ?_⟩
  refine bind_eq_ok.2 ⟨_, MethodSig.mapTokens_answers hsignature, ?_⟩
  refine bind_eq_ok.2 ⟨_, hbodies, ?_⟩
  exact bind_eq_ok.2 ⟨_, Attribute.mapM_mapTokens_answers hattributes, rfl⟩

theorem tokens_rename (g : Token → Token) (x : Method) : (x.rename g).tokens = x.tokens.map g := by
  have hbody : ((x.body.map (MethodBody.rename g)).map MethodBody.tokens).getD [] =
      ((x.body.map MethodBody.tokens).getD []).map g := by
    rcases x.body with _ | b
    · rfl
    · exact b.tokens_rename g
  simp only [tokens, rename, MethodSig.tokens_rename, hbody, Attribute.tokensOf_map_rename,
    List.map_append]

end Method

theorem answersAll_toList {t : Option Token} (h : ∀ u ∈ t, f u = .ok (g u)) :
    AnswersAll f g t.toList := by
  intro u hu
  exact h u (Option.mem_toList.1 hu)

theorem mapM_token_answers {t : Option Token} (h : AnswersAll f g t.toList) :
    t.mapM f = .ok (t.map g) :=
  mapM_option_answers fun u hu => h u (Option.mem_toList.2 hu)

namespace Property

/-- The property with each token replaced. -/
def rename (g : Token → Token) (x : Property) : Property :=
  { x with
    token := g x.token
    signature := x.signature.rename g
    getter := x.getter.map g
    setter := x.setter.map g
    attributes := x.attributes.map (Attribute.rename g) }

theorem mapTokens_ok (hfg : Follows f g) {x x' : Property} (h : x.mapTokens f = .ok x') :
    x' = x.rename g ∧ AnswersAll f g (x.token :: x.tokens) := by
  rcases bind_eq_ok.1 h with ⟨token, htoken, h⟩
  rcases bind_eq_ok.1 h with ⟨signature, hsignature, h⟩
  rcases bind_eq_ok.1 h with ⟨getter, hgetter, h⟩
  rcases bind_eq_ok.1 h with ⟨setter, hsetter, h⟩
  rcases bind_eq_ok.1 h with ⟨attributes, hattributes, h⟩
  cases h
  rcases token_ok hfg htoken with ⟨rfl, ht⟩
  rcases TypeSig.mapTokens_ok hfg x.signature hsignature with ⟨rfl, hs⟩
  rcases mapM_option_ok (fun _ _ => token_ok hfg) hgetter with ⟨rfl, hget⟩
  rcases mapM_option_ok (fun _ _ => token_ok hfg) hsetter with ⟨rfl, hset⟩
  rcases Attribute.mapM_mapTokens_ok hfg hattributes with ⟨rfl, ha⟩
  have haccessors := (hs.append (answersAll_toList hget)).append (answersAll_toList hset)
  exact ⟨rfl, List.forall_mem_cons.2 ⟨ht, haccessors.append ha⟩⟩

theorem mapTokens_answers {x : Property} (h : AnswersAll f g (x.token :: x.tokens)) :
    x.mapTokens f = .ok (x.rename g) := by
  obtain ⟨htoken, hrest⟩ := List.forall_mem_cons.1 h
  obtain ⟨hleft, hattributes⟩ := List.forall_mem_append.1 hrest
  obtain ⟨hleft, hsetter⟩ := List.forall_mem_append.1 hleft
  obtain ⟨hsignature, hgetter⟩ := List.forall_mem_append.1 hleft
  rw [mapTokens]
  refine bind_eq_ok.2 ⟨_, htoken, ?_⟩
  refine bind_eq_ok.2 ⟨_, TypeSig.mapTokens_answers x.signature hsignature, ?_⟩
  refine bind_eq_ok.2 ⟨_, mapM_token_answers hgetter, ?_⟩
  refine bind_eq_ok.2 ⟨_, mapM_token_answers hsetter, ?_⟩
  exact bind_eq_ok.2 ⟨_, Attribute.mapM_mapTokens_answers hattributes, rfl⟩

theorem tokens_rename (g : Token → Token) (x : Property) : (x.rename g).tokens = x.tokens.map g := by
  simp only [tokens, rename, TypeSig.tokens_rename, Attribute.tokensOf_map_rename, List.map_append,
    Option.toList_map]

end Property

namespace Event

/-- The event with each token replaced. -/
def rename (g : Token → Token) (x : Event) : Event :=
  { x with
    token := g x.token
    eventType := g x.eventType
    add := x.add.map g
    remove := x.remove.map g
    attributes := x.attributes.map (Attribute.rename g) }

theorem mapTokens_ok (hfg : Follows f g) {x x' : Event} (h : x.mapTokens f = .ok x') :
    x' = x.rename g ∧ AnswersAll f g (x.token :: x.tokens) := by
  rcases bind_eq_ok.1 h with ⟨token, htoken, h⟩
  rcases bind_eq_ok.1 h with ⟨eventType, htype, h⟩
  rcases bind_eq_ok.1 h with ⟨add, hadd, h⟩
  rcases bind_eq_ok.1 h with ⟨remove, hremove, h⟩
  rcases bind_eq_ok.1 h with ⟨attributes, hattributes, h⟩
  cases h
  rcases token_ok hfg htoken with ⟨rfl, ht⟩
  rcases token_ok hfg htype with ⟨rfl, hs⟩
  rcases mapM_option_ok (fun _ _ => token_ok hfg) hadd with ⟨rfl, ha⟩
  rcases mapM_option_ok (fun _ _ => token_ok hfg) hremove with ⟨rfl, hr⟩
  rcases Attribute.mapM_mapTokens_ok hfg hattributes with ⟨rfl, has⟩
  have haccessors := (answersAll_toList ha).append (answersAll_toList hr)
  refine ⟨rfl, List.forall_mem_cons.2 ⟨ht, ?_⟩⟩
  exact List.forall_mem_cons.2 ⟨hs, haccessors.append has⟩

theorem mapTokens_answers {x : Event} (h : AnswersAll f g (x.token :: x.tokens)) :
    x.mapTokens f = .ok (x.rename g) := by
  obtain ⟨htoken, hrest⟩ := List.forall_mem_cons.1 h
  obtain ⟨htype, hrest⟩ := List.forall_mem_cons.1 hrest
  obtain ⟨hleft, hattributes⟩ := List.forall_mem_append.1 hrest
  obtain ⟨hadd, hremove⟩ := List.forall_mem_append.1 hleft
  rw [mapTokens]
  refine bind_eq_ok.2 ⟨_, htoken, ?_⟩
  refine bind_eq_ok.2 ⟨_, htype, ?_⟩
  refine bind_eq_ok.2 ⟨_, mapM_token_answers hadd, ?_⟩
  refine bind_eq_ok.2 ⟨_, mapM_token_answers hremove, ?_⟩
  exact bind_eq_ok.2 ⟨_, Attribute.mapM_mapTokens_answers hattributes, rfl⟩

theorem tokens_rename (g : Token → Token) (x : Event) : (x.rename g).tokens = x.tokens.map g := by
  simp only [tokens, rename, Attribute.tokensOf_map_rename, List.map_append, Option.toList_map,
    List.map_cons]

end Event

end

end ModuleLinker
