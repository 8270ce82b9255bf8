import ModuleLinker.Proofs.Relocation.MemberReferences
import ModuleLinker.Proofs.Renaming.Places

namespace ModuleLinker

/-! # What is visited of a written type

A shape is written with every token replaced that has a counterpart. The closure check and the writer of
references look at a type through the tokens that it lists, so a place that is replaced and not listed would
go unseen. There is none: what the substitution changes in a written type shows in the tokens that it lists
or in those that the type and its members are known by.
-/

/-- What is renamed depends on the counterparts of its tokens alone. -/
theorem rename_eq_of_agree {α : Type} {rename : (Token → Token) → α} {ts : List Token}
    {mapTokens : (Token → Except Fault Token) → Except Fault α} {g g' : Token → Token}
    (hanswers : ∀ f g, AnswersAll f g ts → mapTokens f = .ok (rename g)) (h : ∀ t ∈ ts, g t = g' t) :
    rename g = rename g' := by
  have hg : mapTokens (fun t => .ok (g t)) = .ok (rename g) := hanswers _ _ fun _ _ => rfl
  have hg' : mapTokens (fun t => .ok (g t)) = .ok (rename g') :=
    hanswers _ _ fun t ht => congrArg Except.ok (h t ht)
  exact Except.ok.inj (hg.symm.trans hg')

namespace Shape

/-! ## Tokens of a shape -/

/-- The tokens that a shape refers to, with the modules they come from, in the order in which its type
lists them. -/
def references (l : Linkage) (s : Shape) : List SourceToken :=
  s.origin.base.toList.map (SourceToken.mk s.source) ++
    s.interfaces.map (fun i => ⟨i.source, i.value⟩) ++
    s.attributes.map (fun a => ⟨a.source, a.value.type⟩) ++
    s.parts.flatMap fun x =>
      (x.value.withAttributes (retained l x.source)).tokens.map (SourceToken.mk x.source)

/-- The counterpart of a token. -/
def counterpartOf (sub : Substitution) (k : SourceToken) : Token := sub.counterpart k.source k.token

theorem tokens_image (l : Linkage) (sub : Substitution) (s : Shape) :
    (s.image l sub).tokens = (s.references l).map (counterpartOf sub) := by
  have hmember (x : Sourced Member) : (memberImage l sub.counterpart x).tokens =
      ((x.value.withAttributes (retained l x.source)).tokens.map (SourceToken.mk x.source)).map
        (counterpartOf sub) := by
    rw [memberImage, Member.tokens_rename, List.map_map]
    rfl
  rw [TypeDef.tokens_eq, base_image, interfaces_image, attributes_image, members_image, references,
    Attribute.tokensOf]
  simp only [List.map_append, List.map_map, List.map_flatMap, List.flatMap_map, Option.toList_map, hmember]
  rfl

/-- Two substitutions give the tokens of the shape and of its members, and those that they refer to, the same
counterparts. -/
def SameCounterparts (l : Linkage) (sub sub' : Substitution) (s : Shape) : Prop :=
  ∀ k ∈ s.keys ++ s.references l, counterpartOf sub k = counterpartOf sub' k

variable {l : Linkage} {sub sub' : Substitution}

theorem SameCounterparts.part {s : Shape} (h : SameCounterparts l sub sub' s) {x : Sourced Member}
    (hx : x ∈ s.parts) :
    ∀ t ∈ x.value.token :: (x.value.withAttributes (retained l x.source)).tokens,
      sub.counterpart x.source t = sub'.counterpart x.source t := by
  obtain ⟨hkeys, hreferences⟩ := List.forall_mem_append.1 h
  refine List.forall_mem_cons.2 ⟨?_, fun t ht => ?_⟩
  · exact hkeys _ (List.mem_cons_of_mem _ (List.mem_map_of_mem hx))
  · refine hreferences ⟨x.source, t⟩ (List.mem_append_right _ ?_)
    exact List.mem_flatMap.2 ⟨x, hx, List.mem_map_of_mem ht⟩

mutual

/-- A written type shows the substitution at the tokens of the shape alone. -/
theorem image_congr (s : Shape) (h : ∀ u ∈ s.within, SameCounterparts l sub sub' u) :
    s.image l sub = s.image l sub' := by
  rcases s with ⟨source, origin, name, flags, fields, methods, properties, events, interfaces,
    attributes, nested, members, interfaceNames⟩
  obtain ⟨hself, hnested⟩ := List.forall_mem_cons.1 h
  have hparts := fun x hx => hself.part (x := x) hx
  simp only [parts, List.forall_mem_append, List.forall_mem_map] at hparts
  obtain ⟨⟨⟨hfields, hmethods⟩, hproperties⟩, hevents⟩ := hparts
  obtain ⟨hkeys, hreferences⟩ := List.forall_mem_append.1 hself
  simp only [references, List.forall_mem_append, List.forall_mem_map] at hreferences
  obtain ⟨⟨⟨hbase, hinterfaces⟩, hattributes⟩, -⟩ := hreferences
  -- part by part, in the order of the fields of a type
  have hbaseImage : origin.base.map (sub.counterpart source) = origin.base.map (sub'.counterpart source) :=
    Option.map_congr fun t ht => hbase t (Option.mem_toList.2 ht)
  have hattributeImage (a : Sourced Attribute) (ha : a ∈ attributes) :
      a.value.rename (sub.counterpart a.source) = a.value.rename (sub'.counterpart a.source) :=
    congrArg (fun type => { a.value with type }) (hattributes a ha)
  rw [image, image, TypeDef.mk.injEq]
  exact ⟨hkeys ⟨source, origin.token⟩ List.mem_cons_self, rfl, rfl, rfl, hbaseImage,
    List.map_congr_left hinterfaces, rfl,
    List.map_congr_left fun x hx => rename_eq_of_agree (fun _ _ => Field.mapTokens_answers) (hfields x hx),
    List.map_congr_left fun x hx => rename_eq_of_agree (fun _ _ => Method.mapTokens_answers) (hmethods x hx),
    List.map_congr_left fun x hx => rename_eq_of_agree (fun _ _ => Property.mapTokens_answers) (hproperties x hx),
    List.map_congr_left fun x hx => rename_eq_of_agree (fun _ _ => Event.mapTokens_answers) (hevents x hx),
    imageAll_congr nested hnested, List.map_congr_left hattributeImage⟩

theorem imageAll_congr (shapes : List Shape) (h : ∀ u ∈ withinAll shapes, SameCounterparts l sub sub' u) :
    imageAll l sub shapes = imageAll l sub' shapes := by
  cases shapes with
  | nil => rfl
  | cons s shapes =>
    obtain ⟨hs, hshapes⟩ := List.forall_mem_append.1 h
    rw [imageAll, imageAll, image_congr s hs, imageAll_congr shapes hshapes]

end

/-- Where the substitution changes what is written, it changes a token that the type lists or one that the
type or a member is known by. -/
theorem write_eq_of_tokens_eq {s : Shape} {t t' : TypeDef} (ht : write l sub s = .ok t)
    (ht' : write l sub' s = .ok t')
    (htokens : t.within.map TypeDef.tokens = t'.within.map TypeDef.tokens)
    (hdefined : t.within.map TypeDef.definedTokens = t'.within.map TypeDef.definedTokens) : t = t' := by
  obtain ⟨rfl, -⟩ := write_ok s ht
  obtain ⟨rfl, -⟩ := write_ok s ht'
  rw [within_image, within_image, List.map_map, List.map_map, List.map_inj_left] at htokens hdefined
  refine image_congr s fun u hu => List.forall_mem_append.2 ⟨?_, ?_⟩
  · have hkeys := hdefined u hu
    simp only [Function.comp_apply, definedTokens_image] at hkeys
    exact List.map_inj_left.1 hkeys
  · have hreferences := htokens u hu
    simp only [Function.comp_apply, tokens_image] at hreferences
    exact List.map_inj_left.1 hreferences

end Shape

/-- Tokens are replaced where they are listed and in that order: in types, in signatures of methods and of
members, in bodies, and in attributes and members with their own tokens. Whatever a substitution changes in
a written type, it changes in the tokens that the type and the types nested in it list or are known by. -/
theorem replaced_places_listed :
    TypeSig.places.Lawful ∧ MethodSig.places.Lawful ∧ MemberSig.places.Lawful ∧
    MethodBody.places.Lawful ∧ Attribute.places.Lawful ∧ Field.places.Lawful ∧ Method.places.Lawful ∧
    Property.places.Lawful ∧ Event.places.Lawful ∧
    ∀ (l : Linkage) (sub sub' : Substitution) (s : Shape) (t t' : TypeDef),
      Shape.write l sub s = .ok t → Shape.write l sub' s = .ok t' →
      t.within.map TypeDef.tokens = t'.within.map TypeDef.tokens →
      t.within.map TypeDef.definedTokens = t'.within.map TypeDef.definedTokens → t = t' := by
  have htypes : TypeSig.places.Agree := TypeSig.places_agree
  exact ⟨htypes.lawful, MethodSig.places_agree.lawful, MemberSig.places_agree.lawful,
    MethodBody.places_agree.lawful, Attribute.places_agree.lawful, Field.places_agree.lawful,
    Method.places_agree.lawful, Property.places_agree.lawful, Event.places_agree.lawful,
    fun _ _ _ _ _ _ => Shape.write_eq_of_tokens_eq⟩

/-- In a generic type of which two tokens are refused, the first of these is the error. A derived class is
written in the same way under substitutions that differ for a module that it does not come from. -/
theorem replaced_places_listed_derived :
    let f (t : Token) : Except Token Token := if t.value < 2 then .ok t else .error t
    let type : TypeSig := .instantiation (.classType ⟨1⟩) [.valueType ⟨2⟩, .array (.classType ⟨3⟩)]
    let l := Linkage.ofSet Relocation.namesakes Relocation.unionPolicy
    let sub : Substitution :=
      ⟨[(⟨0, ⟨0x02000002⟩⟩, ⟨0x02000001⟩), (⟨0, ⟨0x02000001⟩⟩, ⟨0x02000002⟩)]⟩
    let sub' : Substitution := ⟨(⟨1, ⟨0x02000002⟩⟩, ⟨0x02000003⟩) :: sub.entries⟩
    let derived : Shape := .ofType 0 Relocation.derivedType
    type.mapTokens f = .error ⟨2⟩ ∧
    ∃ t t', derived.write l sub = .ok t ∧ derived.write l sub' = .ok t' ∧ t = t' := by
  intro f type l sub sub' derived
  obtain ⟨htypes, -, -, -, -, -, -, -, -, hwrite⟩ := replaced_places_listed
  constructor
  · exact (htypes.fails_iff type f ⟨2⟩).2 ⟨[⟨1⟩], ⟨2⟩, [⟨3⟩], rfl, by decide, rfl⟩
  · exact ⟨_, _, rfl, rfl, hwrite l sub sub' derived _ _ rfl rfl rfl rfl⟩

end ModuleLinker
