import ModuleLinker.Plan.Build
import ModuleLinker.Proofs.Relocation.Apart
import ModuleLinker.Proofs.Relocation.Copy
import ModuleLinker.Proofs.Relocation.Output
import ModuleLinker.Proofs.Renaming.Names

namespace ModuleLinker

/-! # Complete and reduced types

A type that stays apart ought to come out with all that it declares. It does so exactly if its members
have different keys and its interfaces different names. Keys are texts: they leave out the accessors
of a property, and types of one name in different modules have the same text.

The own shape of a type has the first members with each key, the first interfaces with each name and the
attributes that can stand beside those before them. A type is reduced if that is all of it: then its own
shape leaves out nothing.
-/

/-! ## Complete relocation -/

/-- Whether the members of a type have different keys and its interfaces different names. -/
def TypeDef.KeysApart (names : NameTable) (t : TypeDef) : Prop :=
  (t.members.map (Member.key names)).Nodup ∧ (t.interfaces.map names.name).Nodup

namespace Relocation

variable {set : ModuleSet} {plan : Plan} {policy : Policy}

/-- Whether a type of the output has the members and the interfaces of a type of an input, each of
them once. -/
structure HasAll (l : Linkage) (s : Nat → Token → Token) (source : Nat) (t out : TypeDef) : Prop where
  members : out.members.Perm (t.members.map fun x => Shape.memberImage l s ⟨source, x⟩)
  interfaces : out.interfaces.Perm (t.interfaces.map (s source))

/-- The type of the output that corresponds to a type of an input: it has its token and as many nested
types, and what it is made of is all of the type if the keys of the type permit it. -/
structure Corresponds (l : Linkage) (s : Nat → Token → Token) (source : Nat) (t out : TypeDef) :
    Prop where
  token : out.token = s source t.token
  nested : out.nested.length = t.nested.length
  hasAll : HasAll l s source t out ↔ t.KeysApart (l.names source)

theorem corresponds_image {l : Linkage} {sub : Substitution} {source : Nat} {t : TypeDef} {s : Shape}
    (h : Shape.Holds l source t s) : Corresponds l sub.counterpart source t (s.image l sub) := by
  -- the shape has the first member with each key, which are all members if no key comes twice
  have hmembers : (s.image l sub).members.Perm
      (t.members.map fun x => Shape.memberImage l sub.counterpart ⟨source, x⟩) ↔
      (t.members.map (Member.key (l.names source))).Nodup := by
    have hparts := h.parts.map (Shape.memberImage l sub.counterpart)
    rw [List.map_map] at hparts
    rw [Shape.members_image, hparts.congr_left]
    exact map_firsts_perm
  have hinterfaces : (s.image l sub).interfaces.Perm (t.interfaces.map (sub.counterpart source)) ↔
      (t.interfaces.map (l.names source).name).Nodup := by
    rw [Shape.interfaces_image, h.interfaces, List.map_map]
    exact map_firsts_perm
  constructor
  · rw [Shape.token_image, h.source, h.origin]
  · rw [Shape.nested_image, List.length_map, h.nested]
  · constructor
    · intro hall
      exact ⟨hmembers.1 hall.members, hinterfaces.1 hall.interfaces⟩
    · intro hapart
      exact ⟨hmembers.2 hapart.1, hinterfaces.2 hapart.2⟩

/-- The top-level types of the output that stay apart, and the types nested in them, have all that the
types of the inputs declare exactly if keys are apart. -/
theorem run_hasAll_iff (hset : set.WellNumbered) {log : Log} {out : Module}
    (h : ((run set plan policy).run.run log).1 = .ok out) :
    ∃ s : Nat → Token → Token, List.Forall₂ (fun d t => EmittedAs plan s d t ∧
      (Shape.StaysApart set plan d → List.Forall₂ (Corresponds (.ofSet set policy) s d.origin.module)
        d.type.within t.within)) (set.emitted plan) out.types := by
  rcases run_ok h with ⟨shapes, sub, a, attributes, tables, log', hlayout, -, hwritten, -⟩
  have hset' : (Linkage.ofSet set policy).set.WellNumbered := hset
  -- both describe the same shapes, as the relocation builds them once
  have hbuild := (Shape.buildAll_settles hset' plan).and (Shape.buildAll_apart hset' plan)
  rcases layOut_settles hbuild hlayout with ⟨redirects, ⟨⟨placed, rfl, hbuilt⟩, happart⟩, -⟩
  have hemitted := emittedAs_written hbuilt hwritten
  refine ⟨tables.substitution.counterpart, ?_⟩
  apply List.Forall₂.mp (fun _ _ hemit hapart => ⟨hemit, hapart⟩) hemitted
  rw [(Shape.writeAll_ok _ hwritten).1, Shape.imageAll_eq, List.forall₂_map_right_iff]
  apply happart.imp
  intro d s hholds hstays
  rw [Shape.within_image, List.forall₂_map_right_iff]
  exact (hholds hstays).imp fun _ _ h => corresponds_image h

/-! ## A type with two indexers -/

/-- A class with an indexer by number and one by text: properties of one name and type that only their
accessors tell apart. -/
def indexedType : TypeDef :=
  let getter (token : Token) (param : Primitive) : Method :=
    ⟨token, "get_Item", ⟨0x6⟩, ⟨true, 0, .primitive .i4, [.primitive param]⟩, none, []⟩
  let indexer (token getter : Token) : Property :=
    ⟨token, "Item", .primitive .i4, some getter, none, []⟩
  ⟨⟨0x02000001⟩, "N", "Table", ⟨0x1⟩, none, [], [], [],
    [getter ⟨0x06000001⟩ .i4, getter ⟨0x06000002⟩ .string],
    [indexer ⟨0x17000001⟩ ⟨0x06000001⟩, indexer ⟨0x17000002⟩ ⟨0x06000002⟩], [], [], []⟩

/-- A module with nothing but this class. -/
def indexedModule : Module :=
  { Module.ofIdentity (.ofName "A" ⟨1, 0, 0, 0⟩) .dll with types := [indexedType] }

/-- The module on its own. -/
def indexers : ModuleSet :=
  { primary := ⟨⟨"A.dll"⟩, indexedModule⟩, others := [], references := [], attributeSource := none }

/-- The plan that leaves the class as it is. -/
def indexersPlan : Plan :=
  { placements := [(⟨0, 0⟩, .emit "Table" false)], resources := [], attributes := [], renames := []
    hidden := 0 }

theorem staysApart_indexers {d : Declaration} (hd : d ∈ indexers.emitted indexersPlan) :
    Shape.StaysApart indexers indexersPlan d := by
  have hemitted : indexers.emitted indexersPlan = [⟨⟨0, 0⟩, indexedModule, indexedType⟩] := rfl
  rw [hemitted, List.mem_singleton] at hd
  rw [hd]
  constructor
  · decide
  · unfold TypeDef.NamesApart
    decide

/-- Nothing is merged with the class, and still one of its indexers is lost. -/
theorem run_loses_indexer :
    indexers.WellNumbered ∧
    ((Plan.build indexers (.ofSet indexers) unionPolicy).run.run []).1.toOption = some indexersPlan ∧
    (∀ d ∈ indexers.emitted indexersPlan, Shape.StaysApart indexers indexersPlan d) ∧
    (indexers.emitted indexersPlan).map (fun d => d.type.properties.map Property.getter) =
      [[some ⟨0x06000001⟩, some ⟨0x06000002⟩]] ∧
    ((run indexers indexersPlan unionPolicy).run.run []).1.toOption.map
      (fun out => out.types.map fun t => t.properties.map Property.getter) =
        some [[some ⟨0x06000001⟩]] := by
  refine ⟨by decide, by decide +kernel, fun d hd => staysApart_indexers hd, by decide, ?_⟩
  decide +kernel

theorem run_hasAll_iff_indexers : ∃ out s t,
    ((run indexers indexersPlan unionPolicy).run.run []).1 = .ok out ∧ out.types = [t] ∧
    ¬ HasAll (.ofSet indexers unionPolicy) s 0 indexedType t := by
  have hok : ((run indexers indexersPlan unionPolicy).run.run []).1.isOk := by decide +kernel
  have hemitted : indexers.emitted indexersPlan = [⟨⟨0, 0⟩, indexedModule, indexedType⟩] := rfl
  have hkeys : ¬ indexedType.KeysApart ((Linkage.ofSet indexers unionPolicy).names 0) := by
    unfold TypeDef.KeysApart
    decide +kernel
  rcases exists_eq_ok hok with ⟨out, hrun⟩
  rcases run_hasAll_iff (by decide) hrun with ⟨s, hall⟩
  rw [hemitted] at hall
  rcases List.forall₂_cons_left_iff.1 hall with ⟨t, ts, ⟨-, happart⟩, hrest, hout⟩
  rcases List.forall₂_nil_left_iff.1 hrest with rfl
  have htypes := happart (staysApart_indexers (by rw [hemitted]; exact List.mem_cons_self))
  rw [TypeDef.within_eq, TypeDef.within_eq] at htypes
  rcases htypes with _ | ⟨htype, -⟩
  refine ⟨out, s, t, hrun, hout, ?_⟩
  intro hhas
  exact hkeys (htype.hasAll.1 hhas)

end Relocation

namespace Shape

variable {l : Linkage} {source : Nat} {sub : Substitution}

/-! ## What own shapes are made of -/

theorem key_own (l : Linkage) (source : Nat) (t : TypeDef) : (own l source t).key = ⟨source, t.token⟩ := by
  rw [own_eq]
  rfl

theorem parts_own (l : Linkage) (source : Nat) (t : TypeDef) : (own l source t).parts =
    (ownMembers (l.names source) id t.members).map (Sourced.mk source) := by
  rw [ownMembers_members, own_eq]
  simp [parts, ownParts, Sourced.map, Function.comp_def]

mutual

theorem within_own (l : Linkage) (source : Nat) (t : TypeDef) :
    (own l source t).within = t.within.map (own l source) := by
  rcases t with ⟨token, namespaceName, name, flags, base, interfaces, genericParams, fields, methods,
    properties, events, nested, attributes⟩
  rw [TypeDef.within, List.map_cons, ← withinAll_ownAll l source nested, within_eq, withinAll_eq]
  rfl

theorem withinAll_ownAll (l : Linkage) (source : Nat) (ts : List TypeDef) :
    withinAll (ownAll l source ts) = (TypeDef.withinAll ts).map (own l source) := by
  cases ts with
  | nil => rfl
  | cons t ts =>
    rw [ownAll, withinAll, TypeDef.withinAll, List.map_append, within_own l source t,
      withinAll_ownAll l source ts]

end

/-- What an own shape has filed are its members. -/
theorem filed_own (l : Linkage) (source : Nat) (t : TypeDef) : (own l source t).filed = (own l source t).keys := by
  rw [keys, parts_own, own_eq]
  simp [filed, ownParts, partKey, Function.comp_def]

theorem filedAll_ownAll (l : Linkage) (source : Nat) (ts : List TypeDef) :
    filedAll (ownAll l source ts) = keysOf (ownAll l source ts) := by
  rw [filedAll, keysOf, withinAll_ownAll, List.flatMap_map, List.flatMap_map]
  exact List.flatMap_congr fun t _ => filed_own l source t

/-- The tokens of own shapes are numbered each in its own table. -/
theorem slots_ownAll {ts : List TypeDef} (htypes : ∀ t ∈ TypeDef.withinAll ts, t.token.table = Table.typeDef)
    (hmembers : ∀ t ∈ TypeDef.withinAll ts, ∀ x ∈ t.members, x.token.table = x.table) :
    (withinAll (ownAll l source ts)).flatMap slots =
      (keysOf (ownAll l source ts)).map fun k => (k.token.table, k) := by
  rw [keysOf, withinAll_ownAll, List.flatMap_map, List.flatMap_map, List.map_flatMap]
  refine List.flatMap_congr fun t ht => ?_
  rw [slots, keys, List.map_cons, key_own, htypes t ht, parts_own, List.map_map, List.map_map, List.map_map]
  refine congrArg (_ :: ·) (List.map_congr_left fun x hx => ?_)
  have hx : x ∈ t.members := (firsts_sublist _ _ _).subset hx
  exact Prod.ext (hmembers t ht x hx).symm rfl

/-! ## Reduced types -/

/-- Whether the members of a type have different keys, its interfaces different names, and each of its
attributes can stand beside those before it. -/
structure Reduced (l : Linkage) (source : Nat) (t : TypeDef) : Prop where
  keysApart : t.KeysApart (l.names source)
  attributes : AllFit (NamedAttribute.standsBeside (NamedAttribute.repeats l.set l.policy))
    (fun a => attributeContent l ⟨source, a⟩) t.attributes

namespace Reduced

variable {t : TypeDef}

theorem ownMembers_eq (h : Reduced l source t) {kind : α → Member} {xs : List α}
    (hxs : (xs.map kind).Sublist t.members) : ownMembers (l.names source) kind xs = xs := by
  refine firsts_eq_self.2 ⟨fun _ _ => List.not_mem_nil, ?_⟩
  have hnodup := h.keysApart.1.sublist (hxs.map _)
  rwa [List.map_map] at hnodup

theorem parts_own (h : Reduced l source t) : (own l source t).parts = t.members.map (Sourced.mk source) := by
  rw [Shape.parts_own, h.ownMembers_eq (by rw [List.map_id])]

theorem keys_own (h : Reduced l source t) :
    (own l source t).keys = t.definedTokens.map (SourceToken.mk source) := by
  rw [keys, h.parts_own, key_own, TypeDef.definedTokens_eq, List.map_cons, List.map_map, List.map_map]
  rfl

/-- The members of a kind are left as they are by what leaves each of them. -/
theorem map_ownMembers (h : Reduced l source t) {kind : α → Member} {xs : List α}
    (hxs : (xs.map kind).Sublist t.members) {f : Sourced α → α} (hf : ∀ x, f ⟨source, x⟩ = x) :
    ((ownMembers (l.names source) kind xs).map (Sourced.mk source)).map f = xs := by
  rw [h.ownMembers_eq hxs, List.map_map]
  exact List.map_id'' hf xs

theorem map_interfaces (h : Reduced l source t) {f : Sourced Token → Token} (hf : ∀ x, f ⟨source, x⟩ = x) :
    ((firsts (l.names source).name [] t.interfaces).map (Sourced.mk source)).map f = t.interfaces := by
  rw [firsts_eq_self.2 ⟨fun _ _ => List.not_mem_nil, h.keysApart.2⟩, List.map_map]
  exact List.map_id'' hf _

theorem map_attributes (h : Reduced l source t) {f : Sourced Attribute → Attribute}
    (hf : ∀ x, f ⟨source, x⟩ = x) : (ownAttributes l source t.attributes).map f = t.attributes := by
  rw [ownAttributes_eq, accept_eq_self h.attributes, List.map_map]
  exact List.map_id'' hf _

end Reduced

mutual

/-- Where all tokens stand for themselves, the own shape of a reduced type is written as that type. -/
theorem image_own (hsub : sub.counterpart source = id) (hretained : retained l source = id) (t : TypeDef)
    (h : ∀ u ∈ t.within, Reduced l source u) : image l sub (own l source t) = t := by
  obtain ⟨ht, hnested⟩ := TypeDef.forall_within_iff.1 h
  rcases t with ⟨token, namespaceName, name, flags, base, interfaces, genericParams, fields, methods,
    properties, events, nested, attributes⟩
  have hmember (x : Member) : (x.withAttributes (retained l source)).rename (sub.counterpart source) = x := by
    rw [hsub, hretained, Member.withAttributes_id, Member.rename_id]
  have hfield (x : Field) : { x with attributes := retained l source x.attributes }.rename
      (sub.counterpart source) = x := Member.field.inj (hmember (.field x))
  have hmethod (x : Method) : { x with attributes := retained l source x.attributes }.rename
      (sub.counterpart source) = x := Member.method.inj (hmember (.method x))
  have hproperty (x : Property) : { x with attributes := retained l source x.attributes }.rename
      (sub.counterpart source) = x := Member.property.inj (hmember (.property x))
  have hevent (x : Event) : { x with attributes := retained l source x.attributes }.rename
      (sub.counterpart source) = x := Member.event.inj (hmember (.event x))
  rw [own]
  unfold ownParts
  dsimp only [ofType]
  rw [image, imageAll_ownAll hsub hretained nested hnested]
  have hmethods : (methods.map Member.method).Sublist (fields.map .field ++ methods.map .method) :=
    List.sublist_append_right _ _
  have hproperties : (properties.map Member.property).Sublist
      (fields.map .field ++ methods.map .method ++ properties.map .property) := List.sublist_append_right _ _
  rw [ht.map_ownMembers (by simp [TypeDef.members]) hfield,
    ht.map_ownMembers (hmethods.trans (by simp [TypeDef.members])) hmethod,
    ht.map_ownMembers (hproperties.trans (List.sublist_append_left _ _)) hproperty,
    ht.map_ownMembers (List.sublist_append_right _ _) hevent,
    ht.map_interfaces fun x => congrFun hsub x, ht.map_attributes fun a => ?_, hsub, Option.map_id]
  · rfl
  · dsimp only
    rw [hsub, Attribute.rename_id]

theorem imageAll_ownAll (hsub : sub.counterpart source = id) (hretained : retained l source = id)
    (ts : List TypeDef) (h : ∀ t ∈ ts, ∀ u ∈ t.within, Reduced l source u) :
    imageAll l sub (ownAll l source ts) = ts := by
  cases ts with
  | nil => rfl
  | cons t ts =>
    obtain ⟨ht, hts⟩ := List.forall_mem_cons.1 h
    rw [ownAll, imageAll, image_own hsub hretained t ht, imageAll_ownAll hsub hretained ts hts]

end

/-! ## Writing -/

/-- The own shape of a type can be written where its tokens are resolved. -/
theorem resolved_own (hretained : retained l source = id) {t : TypeDef}
    (h : AnswersAll (sub.resolve source) (sub.counterpart source) (t.definedTokens ++ t.tokens)) :
    Resolved l sub (own l source t) := by
  obtain ⟨hdefined, htokens⟩ := List.forall_mem_append.1 h
  rw [TypeDef.definedTokens_eq] at hdefined
  rw [TypeDef.tokens_eq] at htokens
  obtain ⟨hrest, hmembers⟩ := List.forall_mem_append.1 htokens
  obtain ⟨hrest, hattributes⟩ := List.forall_mem_append.1 hrest
  obtain ⟨hbase, hinterfaces⟩ := List.forall_mem_append.1 hrest
  obtain ⟨htoken, hparts⟩ := List.forall_mem_cons.1 hdefined
  constructor
  · intro x hx
    rw [Shape.parts_own] at hx
    obtain ⟨x, hmem, rfl⟩ := List.mem_map.1 hx
    have hx : x ∈ t.members := (firsts_sublist _ _ _).subset hmem
    dsimp only
    rw [hretained, Member.withAttributes_id]
    exact List.forall_mem_cons.2 ⟨hparts _ (List.mem_map_of_mem hx),
      fun u hu => hmembers u (List.mem_flatMap.2 ⟨x, hx, hu⟩)⟩
  · intro a ha
    rw [own_eq] at ha
    have ha : a ∈ ownAttributes l source t.attributes := ha
    rw [ownAttributes_eq] at ha
    obtain ⟨a, hmem, rfl⟩ := List.mem_map.1 ha
    exact hattributes _ (List.mem_map_of_mem ((accept_sublist _ _ _).subset hmem))
  · rw [own_eq]
    exact List.forall_mem_cons.2 ⟨htoken, hbase⟩
  · intro i hi
    rw [own_eq] at hi
    obtain ⟨i, hmem, rfl⟩ := List.mem_map.1 hi
    exact hinterfaces _ ((firsts_sublist _ _ _).subset hmem)

end Shape

end ModuleLinker
