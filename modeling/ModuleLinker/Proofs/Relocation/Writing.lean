import ModuleLinker.Proofs.Member
import ModuleLinker.Proofs.Relocation.Substitution
import ModuleLinker.Relocation.Shape

namespace ModuleLinker

/-! # Shapes as they are written

A written shape is its image: the same type with each member, interface and attribute replaced under
the substitution for the module that it comes from.
-/

/-- The same thing of the same module with its value changed. -/
def Sourced.map (f : α → β) (x : Sourced α) : Sourced β := ⟨x.source, f x.value⟩

namespace Shape

/-! ## The parts of a shape -/

mutual

/-- The shape and the shapes nested in it at any depth. -/
def within : Shape → List Shape
  | s@⟨_, _, _, _, _, _, _, _, _, _, nested, _, _⟩ => s :: withinAll nested

/-- The shapes and the shapes nested in them at any depth. -/
def withinAll : List Shape → List Shape
  | [] => []
  | s :: rest => s.within ++ withinAll rest

end

theorem withinAll_eq (shapes : List Shape) : withinAll shapes = shapes.flatMap within := by
  induction shapes with
  | nil => rfl
  | cons s shapes ih => rw [withinAll, ih, List.flatMap_cons]

theorem mem_withinAll_snd {placed : List (κ × Shape)} {s : Shape} :
    s ∈ withinAll (placed.map Prod.snd) ↔ ∃ p ∈ placed, s ∈ p.2.within := by
  rw [withinAll_eq, List.flatMap_map, List.mem_flatMap]

theorem within_eq (s : Shape) : s.within = s :: s.nested.flatMap within := by
  cases s
  rw [within, withinAll_eq]

theorem self_mem_within (s : Shape) : s ∈ s.within := by
  rw [within_eq]
  exact List.mem_cons_self

theorem forall_within_iff {p : Shape → Prop} {s : Shape} :
    (∀ u ∈ s.within, p u) ↔ p s ∧ ∀ u ∈ withinAll s.nested, p u := by
  rw [within_eq, List.forall_mem_cons, withinAll_eq]

theorem forall_within_of_mem {p : Shape → Prop} {shapes : List Shape} {s : Shape}
    (hshapes : ∀ u ∈ withinAll shapes, p u) (hs : s ∈ shapes) : ∀ u ∈ s.within, p u := by
  rw [withinAll_eq, List.forall_mem_flatMap] at hshapes
  exact hshapes s hs

/-- What holds of all shapes, and of what comes in the place of one of them, holds afterwards. -/
theorem forall_withinAll_set {p : Shape → Prop} {shapes : List Shape} {index : Nat} {new : Shape}
    (hshapes : ∀ u ∈ withinAll shapes, p u) (hnew : ∀ u ∈ new.within, p u) :
    ∀ u ∈ withinAll (shapes.set index new), p u := by
  rw [withinAll_eq] at hshapes ⊢
  intro u hu
  obtain ⟨s, hs, hmem⟩ := List.mem_flatMap.1 hu
  rcases List.mem_or_eq_of_mem_set hs with hold | rfl
  · exact hshapes u (List.mem_flatMap.2 ⟨s, hold, hmem⟩)
  · exact hnew u hmem

theorem forall_withinAll_append {p : Shape → Prop} {shapes : List Shape} {new : Shape}
    (hshapes : ∀ u ∈ withinAll shapes, p u) (hnew : ∀ u ∈ new.within, p u) :
    ∀ u ∈ withinAll (shapes ++ [new]), p u := by
  rw [withinAll_eq, List.flatMap_append, List.forall_mem_append, ← withinAll_eq, List.flatMap_cons,
    List.flatMap_nil, List.append_nil]
  exact ⟨hshapes, hnew⟩

/-- The members of a shape. -/
def parts (s : Shape) : List (Sourced Member) :=
  s.fields.map (Sourced.map .field) ++ s.methods.map (Sourced.map .method) ++
    s.properties.map (Sourced.map .property) ++ s.events.map (Sourced.map .event)

/-- The token of a member with the number of its module. -/
def partKey (x : Sourced Member) : SourceToken := ⟨x.source, x.value.token⟩

/-- The tokens of the shape and its members. -/
def keys (s : Shape) : List SourceToken := s.key :: s.parts.map partKey

/-! ## Images -/

/-- A member with each token replaced as its module demands, without the attributes that are
dropped. -/
def memberImage (l : Linkage) (g : Nat → Token → Token) (x : Sourced Member) : Member :=
  (x.value.withAttributes (retained l x.source)).rename (g x.source)

mutual

/-- The type of a shape under a substitution. -/
def image (l : Linkage) (sub : Substitution) : Shape → TypeDef
  | ⟨source, origin, name, flags, fields, methods, properties, events, interfaces, attributes,
      nested, _, _⟩ =>
    { token := sub.counterpart source origin.token
      namespaceName := origin.namespaceName, name, flags
      base := origin.base.map (sub.counterpart source)
      interfaces := interfaces.map fun i => sub.counterpart i.source i.value
      genericParams := origin.genericParams
      fields := fields.map fun x =>
        { x.value with attributes := retained l x.source x.value.attributes }.rename
          (sub.counterpart x.source)
      methods := methods.map fun x =>
        { x.value with attributes := retained l x.source x.value.attributes }.rename
          (sub.counterpart x.source)
      properties := properties.map fun x =>
        { x.value with attributes := retained l x.source x.value.attributes }.rename
          (sub.counterpart x.source)
      events := events.map fun x =>
        { x.value with attributes := retained l x.source x.value.attributes }.rename
          (sub.counterpart x.source)
      nested := imageAll l sub nested
      attributes := attributes.map fun a => a.value.rename (sub.counterpart a.source) }

/-- The types of shapes under a substitution. -/
def imageAll (l : Linkage) (sub : Substitution) : List Shape → List TypeDef
  | [] => []
  | s :: rest => image l sub s :: imageAll l sub rest

end

theorem imageAll_eq (l : Linkage) (sub : Substitution) (shapes : List Shape) :
    imageAll l sub shapes = shapes.map (image l sub) := by
  induction shapes with
  | nil => rfl
  | cons s shapes ih => rw [imageAll, ih, List.map_cons]

theorem members_image (l : Linkage) (sub : Substitution) (s : Shape) :
    (s.image l sub).members = s.parts.map (memberImage l sub.counterpart) := by
  rcases s with ⟨source, origin, name, flags, fields, methods, properties, events, interfaces,
    attributes, nested, members, interfaceNames⟩
  simp only [image, TypeDef.members, parts, List.map_append, List.map_map]
  rfl

theorem token_image (l : Linkage) (sub : Substitution) (s : Shape) :
    (s.image l sub).token = sub.counterpart s.source s.origin.token := by
  cases s
  rfl

theorem base_image (l : Linkage) (sub : Substitution) (s : Shape) :
    (s.image l sub).base = s.origin.base.map (sub.counterpart s.source) := by
  cases s
  rfl

theorem interfaces_image (l : Linkage) (sub : Substitution) (s : Shape) :
    (s.image l sub).interfaces = s.interfaces.map fun i => sub.counterpart i.source i.value := by
  cases s
  rfl

theorem attributes_image (l : Linkage) (sub : Substitution) (s : Shape) :
    (s.image l sub).attributes =
      s.attributes.map fun a => a.value.rename (sub.counterpart a.source) := by
  cases s
  rfl

theorem nested_image (l : Linkage) (sub : Substitution) (s : Shape) :
    (s.image l sub).nested = s.nested.map (image l sub) := by
  rw [← imageAll_eq]
  cases s
  rfl

theorem definedTokens_image (l : Linkage) (sub : Substitution) (s : Shape) :
    (s.image l sub).definedTokens = s.keys.map fun k => sub.counterpart k.source k.token := by
  rw [TypeDef.definedTokens_eq, token_image, members_image, keys, List.map_cons, List.map_map,
    List.map_map]
  congr 2
  funext x
  rw [Function.comp_apply, memberImage, Member.token_rename, Member.token_withAttributes]
  rfl

mutual

theorem within_image (l : Linkage) (sub : Substitution) (s : Shape) :
    (s.image l sub).within = s.within.map (image l sub) := by
  rcases s with ⟨source, origin, name, flags, fields, methods, properties, events, interfaces,
    attributes, nested, members, interfaceNames⟩
  rw [within, List.map_cons, ← withinAll_imageAll l sub nested, image, TypeDef.within]

theorem withinAll_imageAll (l : Linkage) (sub : Substitution) (shapes : List Shape) :
    TypeDef.withinAll (imageAll l sub shapes) = (withinAll shapes).map (image l sub) := by
  cases shapes with
  | nil => rfl
  | cons s shapes =>
    rw [imageAll, TypeDef.withinAll, within_image l sub s, withinAll_imageAll l sub shapes, withinAll,
      List.map_append]

end

/-! ## Writing -/

/-- Every token of the shape, those in nested shapes left out, is resolved. -/
structure Resolved (l : Linkage) (sub : Substitution) (s : Shape) : Prop where
  parts : ∀ x ∈ s.parts, AnswersAll (sub.resolve x.source) (sub.counterpart x.source)
    (x.value.token :: (x.value.withAttributes (retained l x.source)).tokens)
  attributes : ∀ a ∈ s.attributes,
    sub.resolve a.source a.value.type = .ok (sub.counterpart a.source a.value.type)
  origin : AnswersAll (sub.resolve s.source) (sub.counterpart s.source)
    (s.origin.token :: s.origin.base.toList)
  interfaces : ∀ i ∈ s.interfaces, sub.resolve i.source i.value = .ok (sub.counterpart i.source i.value)

mutual

theorem write_ok {l : Linkage} {sub : Substitution} (s : Shape) {t : TypeDef}
    (h : write l sub s = .ok t) : t = s.image l sub ∧ ∀ u ∈ s.within, Resolved l sub u := by
  rcases s with ⟨source, origin, name, flags, fields, methods, properties, events, interfaces,
    attributes, nested, members, interfaceNames⟩
  rw [write] at h
  -- one answer for each part, in the order of writing
  rcases bind_eq_ok.1 h with ⟨fields', hfields, h⟩
  rcases bind_eq_ok.1 h with ⟨methods', hmethods, h⟩
  rcases bind_eq_ok.1 h with ⟨properties', hproperties, h⟩
  rcases bind_eq_ok.1 h with ⟨events', hevents, h⟩
  rcases bind_eq_ok.1 h with ⟨attributes', hattributes, h⟩
  rcases bind_eq_ok.1 h with ⟨token', htoken, h⟩
  rcases bind_eq_ok.1 h with ⟨base', hbase, h⟩
  rcases bind_eq_ok.1 h with ⟨interfaces', hinterfaces, h⟩
  rcases bind_eq_ok.1 h with ⟨nested', hnested, h⟩
  cases h
  rcases mapM_list_ok (fun x _ => Field.mapTokens_ok (sub.follows_resolve x.source)) hfields with
    ⟨rfl, hf⟩
  rcases mapM_list_ok (fun x _ => Method.mapTokens_ok (sub.follows_resolve x.source)) hmethods with
    ⟨rfl, hm⟩
  obtain ⟨rfl, hp⟩ :=
    mapM_list_ok (fun x _ => Property.mapTokens_ok (sub.follows_resolve x.source)) hproperties
  rcases mapM_list_ok (fun x _ => Event.mapTokens_ok (sub.follows_resolve x.source)) hevents with
    ⟨rfl, he⟩
  obtain ⟨rfl, ha⟩ :=
    mapM_list_ok (fun a _ => Attribute.mapTokens_ok (sub.follows_resolve a.source)) hattributes
  rcases token_ok (sub.follows_resolve source) htoken with ⟨rfl, ht⟩
  rcases mapM_option_ok (fun _ _ => token_ok (sub.follows_resolve source)) hbase with ⟨rfl, hb⟩
  rcases mapM_list_ok (fun i _ => token_ok (sub.follows_resolve i.source)) hinterfaces with
    ⟨rfl, hi⟩
  rcases writeAll_ok nested hnested with ⟨rfl, hn⟩
  -- each answer is the image of its part and tells that its tokens are resolved
  refine ⟨rfl, List.forall_mem_cons.2 ⟨⟨?_, ha, ?_, hi⟩, hn⟩⟩
  · simp only [parts, List.forall_mem_append, List.forall_mem_map]
    exact ⟨⟨⟨hf, hm⟩, hp⟩, he⟩
  · exact List.forall_mem_cons.2 ⟨ht, answersAll_toList hb⟩

theorem writeAll_ok {l : Linkage} {sub : Substitution} (shapes : List Shape) {ts : List TypeDef}
    (h : writeAll l sub shapes = .ok ts) :
    ts = imageAll l sub shapes ∧ ∀ u ∈ withinAll shapes, Resolved l sub u := by
  cases shapes with
  | nil =>
    cases h
    exact ⟨rfl, nofun⟩
  | cons s shapes =>
    rcases bind_eq_ok.1 h with ⟨t, ht, h⟩
    rcases bind_eq_ok.1 h with ⟨ts', hts, h⟩
    cases h
    rcases write_ok s ht with ⟨rfl, hs⟩
    rcases writeAll_ok shapes hts with ⟨rfl, hshapes⟩
    exact ⟨rfl, List.forall_mem_append.2 ⟨hs, hshapes⟩⟩

end

mutual

/-- A shape can be written if all of its tokens are resolved. -/
theorem write_answers {l : Linkage} {sub : Substitution} (s : Shape)
    (h : ∀ u ∈ s.within, Resolved l sub u) : write l sub s = .ok (s.image l sub) := by
  rcases s with ⟨source, origin, name, flags, fields, methods, properties, events, interfaces,
    attributes, nested, members, interfaceNames⟩
  obtain ⟨⟨hparts, hattributes, horigin, hinterfaces⟩, hnested⟩ := List.forall_mem_cons.1 h
  simp only [parts, List.forall_mem_append, List.forall_mem_map] at hparts
  obtain ⟨⟨⟨hfields, hmethods⟩, hproperties⟩, hevents⟩ := hparts
  obtain ⟨htoken, hbase⟩ := List.forall_mem_cons.1 horigin
  have hwritten : attributes.mapM (fun a => a.value.mapTokens (sub.resolve a.source)) =
      .ok (attributes.map fun a => a.value.rename (sub.counterpart a.source)) := by
    refine mapM_list_answers fun a ha => ?_
    rw [Attribute.mapTokens, hattributes a ha]
    rfl
  rw [write]
  -- one answer for each part, in the order of writing
  refine bind_eq_ok.2 ⟨_, mapM_list_answers fun x hx => Field.mapTokens_answers (hfields x hx), ?_⟩
  refine bind_eq_ok.2 ⟨_, mapM_list_answers fun x hx => Method.mapTokens_answers (hmethods x hx), ?_⟩
  refine bind_eq_ok.2
    ⟨_, mapM_list_answers fun x hx => Property.mapTokens_answers (hproperties x hx), ?_⟩
  refine bind_eq_ok.2 ⟨_, mapM_list_answers fun x hx => Event.mapTokens_answers (hevents x hx), ?_⟩
  refine bind_eq_ok.2 ⟨_, hwritten, bind_eq_ok.2 ⟨_, htoken, ?_⟩⟩
  refine bind_eq_ok.2 ⟨_, mapM_token_answers hbase, ?_⟩
  refine bind_eq_ok.2 ⟨_, mapM_list_answers hinterfaces, ?_⟩
  exact bind_eq_ok.2 ⟨_, writeAll_answers nested hnested, rfl⟩

theorem writeAll_answers {l : Linkage} {sub : Substitution} (shapes : List Shape)
    (h : ∀ u ∈ withinAll shapes, Resolved l sub u) : writeAll l sub shapes = .ok (imageAll l sub shapes) := by
  cases shapes with
  | nil => rfl
  | cons s shapes =>
    obtain ⟨hs, hshapes⟩ := List.forall_mem_append.1 h
    rw [writeAll]
    refine bind_eq_ok.2 ⟨_, write_answers s hs, ?_⟩
    exact bind_eq_ok.2 ⟨_, writeAll_answers shapes hshapes, rfl⟩

end

/-- What holds of every token that is resolved holds of all tokens of the written type. -/
theorem Resolved.tokens_image {l : Linkage} {sub : Substitution} {P : Token → Prop}
    (hP : ∀ source t new, sub.resolve source t = .ok new → P new) {s : Shape} (h : Resolved l sub s) :
    ∀ t ∈ (s.image l sub).tokens, P t := by
  have hbase : ∀ t ∈ (s.image l sub).base.toList, P t := by
    rw [base_image, Option.toList_map, List.forall_mem_map]
    exact fun t ht => hP _ t _ (h.origin t (List.mem_cons_of_mem _ ht))
  have hinterfaces : ∀ t ∈ (s.image l sub).interfaces, P t := by
    rw [interfaces_image, List.forall_mem_map]
    exact fun i hi => hP _ _ _ (h.interfaces i hi)
  have hattributes : ∀ t ∈ Attribute.tokensOf (s.image l sub).attributes, P t := by
    rw [attributes_image, Attribute.tokensOf, List.map_map, List.forall_mem_map]
    exact fun a ha => hP _ _ _ (h.attributes a ha)
  have hmembers : ∀ t ∈ (s.image l sub).members.flatMap Member.tokens, P t := by
    rw [members_image, List.forall_mem_flatMap, List.forall_mem_map]
    intro x hx
    rw [memberImage, Member.tokens_rename, List.forall_mem_map]
    intro t ht
    exact hP _ t _ (h.parts x hx t (List.mem_cons_of_mem _ ht))
  rw [TypeDef.tokens_eq]
  exact List.forall_mem_append.2 ⟨List.forall_mem_append.2 ⟨List.forall_mem_append.2
    ⟨hbase, hinterfaces⟩, hattributes⟩, hmembers⟩

end Shape

end ModuleLinker
