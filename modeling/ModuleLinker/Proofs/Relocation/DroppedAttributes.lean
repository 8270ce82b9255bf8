import ModuleLinker.Proofs.NameTables
import ModuleLinker.Proofs.Plan.Attributes
import ModuleLinker.Proofs.Relocation.NestedTypes
import ModuleLinker.Proofs.Relocation.Own
import ModuleLinker.Proofs.Relocation.Rewriting
import ModuleLinker.Proofs.Relocation.Union

namespace ModuleLinker

/-! # Attributes that are chosen and attributes that are dropped

The attributes of the module and those of its types are chosen by one rule, `Chosen`, though a plan looks
at all modules in one go and a shape chooses again with every type that it takes in. A shape keeps nothing
of its earlier choices but the attributes themselves, and that is enough: what it has is what a single
scan over the attributes of all its types would keep.
-/

namespace Shape

open Shaping

variable {l : Linkage} {source : Nat} {ts : List (Sourced TypeDef)}

/-- The attributes of a type that are not dropped. -/
def undroppedAttributes (l : Linkage) (source : Nat) (as : List Attribute) : List (Sourced Attribute) :=
  (as.filter fun a => !l.policy.drops ((l.names source).name a.type)).map (Sourced.mk source)

theorem undroppedAttributes_append_singleton (l : Linkage) (source : Nat) (as : List Attribute)
    (a : Attribute) : undroppedAttributes l source (as ++ [a]) =
      if l.policy.drops ((l.names source).name a.type) then undroppedAttributes l source as
      else undroppedAttributes l source as ++ [⟨source, a⟩] := by
  rw [undroppedAttributes, List.filter_append, List.map_append]
  by_cases hdrops : l.policy.drops ((l.names source).name a.type)
  · rw [if_pos hdrops, List.filter_cons_of_neg (by simp [hdrops]), List.filter_nil, List.map_nil,
      List.append_nil, undroppedAttributes]
  · rw [if_neg hdrops, List.filter_cons_of_pos (by simp [hdrops]), List.filter_nil, List.map_singleton,
      undroppedAttributes]

/-- The attributes of types among which those of their shape are chosen. -/
def offeredAttributes (l : Linkage) (ts : List (Sourced TypeDef)) : List (Sourced Attribute) :=
  ts.flatMap fun t => undroppedAttributes l t.source t.value.attributes

theorem offeredAttributes_append_singleton (l : Linkage) (ts : List (Sourced TypeDef)) (t : Sourced TypeDef) :
    offeredAttributes l (ts ++ [t]) =
      offeredAttributes l ts ++ undroppedAttributes l t.source t.value.attributes := by
  rw [offeredAttributes, List.flatMap_append, List.flatMap_singleton, offeredAttributes]

/-- Those of some attributes that can stand beside the ones kept before them. -/
def chosenOf (l : Linkage) (as : List (Sourced Attribute)) : List (Sourced Attribute) :=
  accept (NamedAttribute.standsBeside (NamedAttribute.repeats l.set l.policy)) (attributeContent l) as

/-- Taking an attribute is one step of the scan. -/
theorem takeAttribute_chosenOf {s : Shape} {offered : List (Sourced Attribute)} {done : List Attribute}
    (hs : s.attributes = chosenOf l (offered ++ undroppedAttributes l source done)) (a : Attribute) :
    (takeAttribute l source s a).Answers (· =
      { s with attributes := chosenOf l (offered ++ undroppedAttributes l source (done ++ [a])) }) := by
  intro log
  rw [takeAttribute_chooses s a log, undroppedAttributes_append_singleton]
  split
  case isTrue =>
    rw [← hs]
    cases s
    rfl
  case isFalse =>
    rw [← List.append_assoc, chosenOf, accept_append_singleton, ← chosenOf, ← hs]
    split
    · rfl
    · cases s
      rfl

/-- The attributes of a type go on with the scan of those before it. -/
theorem takeAttributes_chosenOf {s : Shape} (offered : List (Sourced Attribute))
    (hs : s.attributes = chosenOf l offered) (as : List Attribute) :
    Yields (as.foldlM (fun s a => liftM (takeAttribute l source s a)) s) fun s' _ =>
      s' = { s with attributes := chosenOf l (offered ++ undroppedAttributes l source as) } := by
  refine Yields.foldlM (motive := fun done s' _ =>
    s' = { s with attributes := chosenOf l (offered ++ undroppedAttributes l source done) }) ?_ ?_
  · rw [undroppedAttributes, List.filter_nil, List.map_nil, List.append_nil, ← hs]
    cases s
    rfl
  · rintro done a - _ new rfl
    refine (Yields.lift (takeAttribute_chosenOf rfl a)).mono ?_
    rintro _ _ ⟨rfl, -⟩
    rfl

/-- The attributes of a shape are those that one scan over the attributes of its types keeps. -/
def ChoosesOwn (l : Linkage) (ts : List (Sourced TypeDef)) (s : Shape) : Prop :=
  s.attributes = chosenOf l (offeredAttributes l ts)

theorem takeParts_chooses {t : TypeDef} {s : Shape} (h : ChoosesOwn l ts s) :
    Yields (takeParts l source t s) fun s' _ => ChoosesOwn l (ts ++ [⟨source, t⟩]) s' := by
  unfold takeParts
  refine (Relocation.takeMembers_keep_rest source t _ s).bind ?_
  rintro s₁ _ ⟨-, -, hattributes⟩
  obtain ⟨seen, heq⟩ := takeInterfaces_eq source (l.names source) t.interfaces s₁
  dsimp only
  rw [heq]
  refine (takeAttributes_chosenOf (offeredAttributes l ts) ?_ t.attributes).mono ?_
  · exact hattributes.trans h
  · rintro _ _ rfl
    rw [ChoosesOwn, offeredAttributes_append_singleton]

theorem takesParts_choosesOwn (l : Linkage) : TakesParts l (ChoosesOwn l) := by
  constructor
  · intro source t
    rfl
  · intro source t _ ts s h
    refine ((Relocation.takeParts_keeps l source t s).and (takeParts_chooses h)).mono ?_
    rintro s' _ ⟨⟨hhead, hnested⟩, hchooses⟩
    exact ⟨hhead.name, hnested, hchooses⟩
  · intro ts s h name flags nested
    exact h

end Shape

namespace Relocation

open Shape

variable {l : Linkage} {s : Nat → Token → Token}

/-- The attributes of a type of the output are chosen among those of the types that went into it, and those
of a type nested in it among those of the nested types of its name. -/
inductive ChoosesFrom (l : Linkage) (s : Nat → Token → Token) : List (Sourced TypeDef) → TypeDef → Prop
  | mk {ts : List (Sourced TypeDef)} {t : TypeDef} (kept : List (Sourced Attribute))
      (attributes : t.attributes = kept.map fun a => a.value.rename (s a.source))
      (chosen : Chosen (NamedAttribute.MayRepeat l.set l.policy) (attributeContent l)
        (offeredAttributes l ts) kept)
      (nested : ∀ w ∈ t.nested, ChoosesFrom l s (named w.name (nestedOf ts)) w) : ChoosesFrom l s ts t

/-- What is written for a shape that has chosen. -/
theorem choosesFrom_image {sub : Substitution} {ts : List (Sourced TypeDef)} {a : Shape}
    (h : Composed (ChoosesOwn l) ts a) : ChoosesFrom l sub.counterpart ts (a.image l sub) := by
  induction h with
  | @mk ts a own distinct names nested ih =>
    refine .mk (chosenOf l (offeredAttributes l ts)) ?_ ?_ ?_
    · rw [attributes_image, own]
    · exact chosen_accept (fun _ => NamedAttribute.repeats_iff) _ _
    · rw [nested_image, List.forall_mem_map]
      intro n hn
      rw [name_image]
      exact ih n hn

/-- Attributes are chosen by one rule: those of the module, by the plan of any set and policy, among all
that are not dropped; and in what any plan leads to those of every type, nested or not, among the ones that
are not dropped of all the types that went into it. -/
theorem run_choosesAttributes (set : ModuleSet) (p : Policy) :
    (Plan.planAttributes set (.ofSet set) p).Answers (Plan.ChoosesAttributes set p) ∧
    (∀ plan log, ((Plan.build set (.ofSet set) p).run.run log).1 = .ok plan →
      Plan.ChoosesAttributes set p plan.attributes) ∧
    ∀ plan log out, ((run set plan p).run.run log).1 = .ok out →
      ∃ s, List.Forall₂ (fun d t => EmittedAs plan s d t ∧
        ChoosesFrom (.ofSet set p) s (contributors plan set.declarations d.origin) t)
          (set.emitted plan) out.types := by
  refine ⟨Plan.planAttributes_choose set p, ?_, ?_⟩
  · intro plan log hplan
    exact Plan.attributes_of_build (Plan.planAttributes_choose set p) hplan
  · intro plan log out hrun
    obtain ⟨sub, hall⟩ := run_accumulates hrun
    have hchosen := hall _ (composed_accumulates (takesParts_choosesOwn (.ofSet set p)))
    refine ⟨sub.counterpart, hchosen.imp ?_⟩
    rintro d _ ⟨hemitted, a, rfl, hcomposed⟩
    exact ⟨hemitted, choosesFrom_image hcomposed⟩

/-! ## A type with attributes of two modules -/

/-- An attribute with one argument. -/
def mark (type : Token) (n : Int32) : Attribute := ⟨type, [.i32 n], []⟩

/-- A class `N.T` with attributes, and with a type nested in it that has one. -/
def markedType (attributes : List Attribute) (inner : Attribute) : TypeDef :=
  { bareType ⟨0x1⟩ with
    attributes
    nested := [{ bareType .nestedPublic with
      token := ⟨0x02000002⟩, namespaceName := "", name := "Part", attributes := [inner] }] }

/-- An attribute type `N.Label` that permits several applications. -/
def labelType : TypeDef :=
  { bareType ⟨0x1⟩ with
    token := ⟨0x02000003⟩, name := "Label"
    attributes := [⟨⟨0x01000003⟩, [], [⟨false, Attribute.allowMultipleName, .bool true⟩]⟩] }

/-- Two modules with such classes. The types of their attributes are `Ext.Once`, `Ext.Gone` and `N.Label`,
which the second module knows by a reference. -/
def markedModules : ModuleSet :=
  let refs (others : List TypeRef) : List TypeRef :=
    [⟨⟨0x01000001⟩, .reference 0, "Ext", "Once"⟩, ⟨⟨0x01000002⟩, .reference 0, "Ext", "Gone"⟩] ++ others
  let first : Module :=
    { Module.ofIdentity (.ofName "A" ⟨1, 0, 0, 0⟩) .dll with
      references := [.ofName "Ext" ⟨1, 0, 0, 0⟩]
      typeRefs := refs [⟨⟨0x01000003⟩, .reference 0, "System", "AttributeUsageAttribute"⟩]
      types := [markedType [mark ⟨0x01000002⟩ 0, mark ⟨0x01000001⟩ 1, mark ⟨0x02000003⟩ 1] (mark ⟨0x01000001⟩ 1),
        labelType]
      attributes := [mark ⟨0x01000001⟩ 1] }
  let second : Module :=
    { Module.ofIdentity (.ofName "B" ⟨1, 0, 0, 0⟩) .dll with
      references := [.ofName "Ext" ⟨1, 0, 0, 0⟩, .ofName "A" ⟨1, 0, 0, 0⟩]
      typeRefs := refs [⟨⟨0x01000003⟩, .reference 1, "N", "Label"⟩]
      types := [markedType [mark ⟨0x01000001⟩ 2, mark ⟨0x01000003⟩ 2, mark ⟨0x01000003⟩ 1] (mark ⟨0x01000002⟩ 2)]
      attributes := [mark ⟨0x01000001⟩ 2, mark ⟨0x01000003⟩ 1, mark ⟨0x01000003⟩ 2] }
  { primary := ⟨⟨"A.dll"⟩, first⟩, others := [⟨⟨"B.dll"⟩, second⟩], references := []
    attributeSource := none }

/-- A policy that makes one type of the classes, takes the attributes of all modules and drops those of the
type `Ext.Gone`. -/
def droppingPolicy : Policy :=
  { unionPolicy with
    options := { unionPolicy.options with copyAttributes := true, droppedAttributes := ["Gone"] } }

/-- The plan that this policy leads to. -/
def markedPlan : Plan :=
  { placements := [(⟨0, 0⟩, .emit "T" false), (⟨0, 1⟩, .emit "Label" false), (⟨1, 0⟩, .into ⟨0, 0⟩)]
    resources := [], attributes := [⟨.input 0, 0⟩, ⟨.input 1, 1⟩, ⟨.input 1, 2⟩], renames := [], hidden := 0 }

/-- Of the attributes of `N.T` the one of the second module that would repeat `Ext.Once` is left out and
that with a new argument for `N.Label` is kept. -/
theorem run_choosesAttributes_marked : ∃ out s,
    ((Plan.build markedModules (.ofSet markedModules) droppingPolicy).run.run []).1 = .ok markedPlan ∧
    Plan.ChoosesAttributes markedModules droppingPolicy markedPlan.attributes ∧
    ((run markedModules markedPlan droppingPolicy).run.run []).1 = .ok out ∧
    List.Forall₂ (fun d t => EmittedAs markedPlan s d t ∧ ChoosesFrom (.ofSet markedModules droppingPolicy) s
      (contributors markedPlan markedModules.declarations d.origin) t)
        (markedModules.emitted markedPlan) out.types ∧
    out.types.map (fun t => t.attributes.map Attribute.fixed) =
      [[[.i32 1], [.i32 1], [.i32 2]], [[]]] := by
  have hplan : ((Plan.build markedModules (.ofSet markedModules) droppingPolicy).run.run []).1 =
      .ok markedPlan := by
    decide +kernel
  have hattributes : ((run markedModules markedPlan droppingPolicy).run.run []).1.toOption.map
      (fun out => out.types.map fun t => t.attributes.map Attribute.fixed) =
        some [[[.i32 1], [.i32 1], [.i32 2]], [[]]] := by
    decide +kernel
  have hok : ((run markedModules markedPlan droppingPolicy).run.run []).1.isOk := by decide +kernel
  obtain ⟨out, hrun⟩ := exists_eq_ok hok
  rw [hrun] at hattributes
  obtain ⟨-, hplanned, hchosen⟩ := run_choosesAttributes markedModules droppingPolicy
  obtain ⟨s, hall⟩ := hchosen markedPlan [] out hrun
  exact ⟨out, s, hplan, hplanned markedPlan [] hplan, hrun, hall, Option.some.inj hattributes⟩

end Relocation

/-! ## Attributes that are dropped

The names in a drop list are compared with the names of attribute types, and these are looked up in three
ways: a plan asks the module, a shape asks the table of the module's names, and what is written of a member
asks the module again and keeps what has no name. Where tokens are numbered well the three agree on every
attribute that the drop list can name, so that none of these is left anywhere in the output.
-/

/-- Whether a policy drops an attribute of a module: the module has a name for its type, and the drop list
has that name. -/
def Policy.dropsIn (p : Policy) (m : Module) (a : Attribute) : Bool := (m.typeName? a.type).any p.drops

variable {p : Policy} {m : Module} {a : Attribute}

/-- The name that such an attribute has in the module is dropped. -/
theorem Policy.drops_of_dropsIn (h : p.dropsIn m a) : p.drops (m.typeNameOrToken a.type) := by
  rw [dropsIn, Option.any_eq_true] at h
  obtain ⟨name, hname, hdrops⟩ := h
  rw [Module.typeNameOrToken, hname]
  exact hdrops

namespace Shape

variable {l : Linkage} {source : Nat}

/-- What is written of a member has its attributes without those that are dropped. -/
theorem retained_of_getElem? (hm : l.set.inputs[source]? = some m) (as : List Attribute) :
    retained l source as = as.filter fun a => !l.policy.dropsIn m a := by
  rw [retained]
  refine List.filter_congr ?_
  intro a _
  rw [hm, Option.bind_some, Policy.dropsIn]
  cases m.typeName? a.type with
  | none => rfl
  | some name => rfl

theorem mem_offeredAttributes {ts : List (Sourced TypeDef)} {a : Sourced Attribute} :
    a ∈ offeredAttributes l ts ↔ (∃ t ∈ ts, a.source = t.source ∧ a.value ∈ t.value.attributes) ∧
      l.policy.drops ((l.names a.source).name a.value.type) = false := by
  rw [offeredAttributes, List.mem_flatMap]
  constructor
  · rintro ⟨t, ht, hmem⟩
    obtain ⟨b, hb, rfl⟩ := List.mem_map.1 hmem
    obtain ⟨hb, hdrops⟩ := List.mem_filter.1 hb
    exact ⟨⟨t, ht, rfl, hb⟩, by simpa using hdrops⟩
  · rintro ⟨⟨t, ht, hsource, hmem⟩, hdrops⟩
    refine ⟨t, ht, List.mem_map.2 ⟨a.value, List.mem_filter.2 ⟨hmem, ?_⟩, ?_⟩⟩
    · rw [← hsource, hdrops]
      rfl
    · rw [← hsource]

/-- The attributes of a shape and of all that is nested in it are not dropped. -/
theorem drops_of_mem_attributes {ts : List (Sourced TypeDef)} {s u : Shape} (h : Composed (ChoosesOwn l) ts s)
    (hu : u ∈ s.within) {a : Sourced Attribute} (ha : a ∈ u.attributes) :
    l.policy.drops ((l.names a.source).name a.value.type) = false := by
  obtain ⟨ts', hown⟩ := h.within u hu
  rw [hown] at ha
  exact (mem_offeredAttributes.1 ((accept_sublist _ _ _).subset ha)).2

end Shape

namespace Plan

variable {set : ModuleSet} {plan : Plan} {log : Log}

/-- The attributes of a plan are not dropped, also where they are those of the attribute source. -/
theorem not_dropsIn_of_build (h : ((build set (.ofSet set) p).run.run log).1 = .ok plan)
    {place : PlannedAttribute} (hplace : place ∈ plan.attributes) :
    ∃ m a, set.source? (place.source.number set) = some m ∧ m.attributes[place.index]? = some a ∧
      ¬p.dropsIn m a := by
  obtain ⟨kept, hplaces, hchosen⟩ := attributes_of_build (planAttributes_choose set p) h
  rw [hplaces] at hplace
  obtain ⟨e, he, rfl⟩ := List.mem_map.1 hplace
  obtain ⟨hnamed, hdrops⟩ := List.mem_filter.1 (hchosen.order.subset he)
  obtain ⟨⟨m, place, a⟩, happlied, rfl⟩ := List.mem_map.1 hnamed
  obtain ⟨hm, ha⟩ := mem_applications happlied
  refine ⟨m, a, hm, ha, ?_⟩
  intro hdropped
  have hname := Policy.drops_of_dropsIn hdropped
  rw [naming, hname] at hdrops
  exact nomatch hdrops

end Plan

namespace Relocation

open Shape

variable {set : ModuleSet} {plan : Plan} {log : Log} {out : Module}

/-- A member of the output is that of an input, and has its attributes in their order, all but those that
are dropped. -/
structure KeepsUndropped (set : ModuleSet) (p : Policy) (s : Nat → Token → Token) (x : Sourced Member)
    (y : Member) : Prop where
  declared : set.DeclaresMember x
  table : y.table = x.value.table
  token : y.token = s x.source x.value.token
  attributes : ∃ m, set.inputs[x.source]? = some m ∧ y.attributes =
    (x.value.attributes.filter fun a => !p.dropsIn m a).map (Attribute.rename (s x.source))

theorem keepsUndropped_memberImage {s : Nat → Token → Token} {x : Sourced Member} (hx : set.DeclaresMember x) :
    KeepsUndropped set p s x (memberImage (.ofSet set p) s x) := by
  obtain ⟨t, ⟨m, hm, -⟩, -⟩ := id hx
  constructor
  · exact hx
  · rw [memberImage, Member.table_rename, Member.table_withAttributes]
  · rw [memberImage, Member.token_rename, Member.token_withAttributes]
  · refine ⟨m, hm, ?_⟩
    rw [memberImage, Member.attributes_rename, Member.attributes_withAttributes, retained_of_getElem? hm]
    rfl

/-- An attribute of a type of the output is one of a type of an input, and not dropped there. -/
def IsUndropped (set : ModuleSet) (p : Policy) (s : Nat → Token → Token) (b : Attribute) : Prop :=
  ∃ source m t a, set.inputs[source]? = some m ∧ t ∈ m.allTypes ∧ a ∈ t.attributes ∧ ¬p.dropsIn m a ∧
    b = a.rename (s source)

/-- What a shape has taken of a type was not dropped under the name that the module gives it. -/
theorem isUndropped_rename (hset : set.WellNumbered) {a : Sourced Attribute} {t : TypeDef}
    (ht : set.Declares ⟨a.source, t⟩) (ha : a.value ∈ t.attributes)
    (hkept : p.drops (((Linkage.ofSet set p).names a.source).name a.value.type) = false)
    (s : Nat → Token → Token) : IsUndropped set p s (a.value.rename (s a.source)) := by
  obtain ⟨m, hm, hmem⟩ := ht
  refine ⟨a.source, m, t, a.value, hm, hmem, ha, ?_, rfl⟩
  intro hdropped
  have hnames : (Linkage.ofSet set p).names a.source = .ofModule m := Linkage.names_of_getElem? hm p
  rw [hnames, (hset m (List.mem_of_getElem? hm)).typesNumbered.name_ofModule] at hkept
  exact nomatch hkept.symm.trans (Policy.drops_of_dropsIn hdropped)

/-- An attribute of the output's module is the one at the planned place, and not dropped there; where the
place is in an input, its tokens are replaced. -/
def IsPlanned (set : ModuleSet) (p : Policy) (s : Nat → Token → Token) (place : PlannedAttribute)
    (b : Attribute) : Prop :=
  ∃ m a, set.source? (place.source.number set) = some m ∧ m.attributes[place.index]? = some a ∧
    ¬p.dropsIn m a ∧ b = { a with type := b.type } ∧
      (set.isInput (place.source.number set) → b = a.rename (s (place.source.number set)))

theorem isPlanned_of_attributed (hplan : ((Plan.build set (.ofSet set) p).run.run log).1 = .ok plan)
    {tables : ImportTables} {place : PlannedAttribute} (hplace : place ∈ plan.attributes) {b : Attribute}
    (h : Attributed (.ofSet set p) tables place b) :
    IsPlanned set p tables.substitution.counterpart place b := by
  obtain ⟨m, a, hm, ha, hb, htype⟩ := h
  obtain ⟨m', a', hm', ha', hkept⟩ := Plan.not_dropsIn_of_build hplan hplace
  -- the attribute that the plan chose is the one that was imported
  obtain rfl := Option.some.inj (hm.symm.trans hm')
  obtain rfl := Option.some.inj (ha.symm.trans ha')
  refine ⟨m, a, hm, ha, hkept, hb, ?_⟩
  intro hinput
  rw [hb, tables.substitution.follows_resolve _ _ _ (htype hinput)]
  rfl

/-- Where tokens are numbered well, nothing in the output has an attribute that is dropped: every member,
however deep its type is nested and whether or not the type was joined with others, has all attributes of
its own but these; the attributes of the types are others; and so are those of the module if the plan is
that of the same policy. -/
theorem run_dropsAttributes (hset : set.WellNumbered) (hrun : ((run set plan p).run.run log).1 = .ok out) :
    ∃ s : Nat → Token → Token,
      (∀ t ∈ out.allTypes, ∃ xs, List.Forall₂ (KeepsUndropped set p s) xs t.members) ∧
      (∀ t ∈ out.allTypes, ∀ b ∈ t.attributes, IsUndropped set p s b) ∧
      ∀ log', ((Plan.build set (.ofSet set) p).run.run log').1 = .ok plan →
        List.Forall₂ (IsPlanned set p s) plan.attributes out.attributes := by
  have hchoose := placeDeclarations_accumulate
    (composed_accumulates (takesParts_choosesOwn (.ofSet set p))) plan
  obtain ⟨placed, rs, start, tables, hcarried, haccumulated⟩ := run_carries_with hset.identified hchoose hrun
  have hdrawn := hcarried.landed.drawn_within
  refine ⟨tables.substitution.counterpart, ?_, ?_, ?_⟩
  · rw [hcarried.allTypes_eq, List.forall_mem_map]
    intro u hu
    refine ⟨u.parts, ?_⟩
    rw [members_image, List.forall₂_map_right_iff, List.forall₂_same]
    intro x hx
    exact keepsUndropped_memberImage ((hdrawn u hu).declared x hx)
  · rw [hcarried.allTypes_eq, List.forall_mem_map]
    intro u hu b hb
    rw [attributes_image] at hb
    obtain ⟨a, ha, rfl⟩ := List.mem_map.1 hb
    obtain ⟨t, ht, hmem⟩ := (hdrawn u hu).attributes a ha
    obtain ⟨q, hq, hwithin⟩ := mem_withinAll_snd.1 hu
    have hkept := drops_of_mem_attributes (haccumulated.each q hq) hwithin ha
    exact isUndropped_rename hset ht hmem hkept tables.substitution.counterpart
  · intro log' hplan
    obtain ⟨hlength, hzip⟩ := List.forall₂_iff_zip.1 hcarried.bound.attributes
    refine List.forall₂_iff_zip.2 ⟨hlength, ?_⟩
    intro place b hmem
    exact isPlanned_of_attributed hplan (List.of_mem_zip hmem).1 (hzip hmem)

/-! ## Attributes at every place -/

/-- A module that refers to the attribute types `Ext.Once` and `Ext.Gone` and has one attribute of each. -/
def shedModule (name : String) (n : Int32) (types : List TypeDef) : LoadedModule :=
  ⟨⟨name ++ ".dll"⟩, { Module.ofIdentity (.ofName name ⟨1, 0, 0, 0⟩) .dll with
    references := [.ofName "Ext" ⟨1, 0, 0, 0⟩]
    typeRefs := [⟨⟨0x01000001⟩, .reference 0, "Ext", "Once"⟩, ⟨⟨0x01000002⟩, .reference 0, "Ext", "Gone"⟩]
    types
    attributes := [mark ⟨0x01000002⟩ n, mark ⟨0x01000001⟩ n] }⟩

/-- A class `N.T` with a field, and with such a class nested in it, all with one attribute of each type. -/
def shedType (field : String) (n : Int32) : TypeDef :=
  let attributes := [mark ⟨0x01000001⟩ n, mark ⟨0x01000002⟩ n]
  { bareType ⟨0x1⟩ with
    fields := [⟨⟨0x04000001⟩, field, ⟨0x6⟩, .primitive .i4, attributes⟩]
    attributes
    nested := [{ bareType .nestedPublic with
      token := ⟨0x02000002⟩, namespaceName := "", name := "Part"
      fields := [⟨⟨0x04000002⟩, field, ⟨0x6⟩, .primitive .i4, attributes⟩], attributes }] }

/-- Two modules with such classes, and one for the attributes of the output. -/
def shedModules : ModuleSet :=
  { primary := shedModule "A" 1 [shedType "f" 1], others := [shedModule "B" 2 [shedType "g" 2]]
    references := [], attributeSource := some (shedModule "C" 3 []) }

/-- The plan to make one class of the two, and to take over one attribute of the third module. -/
def shedPlan : Plan :=
  { placements := [(⟨0, 0⟩, .emit "T" false), (⟨1, 0⟩, .into ⟨0, 0⟩)], resources := []
    attributes := [⟨.attributeFile, 1⟩], renames := [], hidden := 0 }

/-- Each of the four fields in the two classes of the output has one attribute left, and so have the classes
and the module. -/
theorem run_dropsAttributes_shed : ∃ out s,
    ((Plan.build shedModules (.ofSet shedModules) droppingPolicy).run.run []).1 = .ok shedPlan ∧
    ((run shedModules shedPlan droppingPolicy).run.run []).1 = .ok out ∧
    (∀ t ∈ out.allTypes, ∃ xs, List.Forall₂ (KeepsUndropped shedModules droppingPolicy s) xs t.members) ∧
    (∀ t ∈ out.allTypes, ∀ b ∈ t.attributes, IsUndropped shedModules droppingPolicy s b) ∧
    out.allTypes.map (fun t => t.members.map fun y => y.attributes.map Attribute.fixed) =
      [[[[.i32 1]], [[.i32 2]]], [[[.i32 1]], [[.i32 2]]]] ∧
    out.allTypes.map (fun t => t.attributes.map Attribute.fixed) = [[[.i32 1]], [[.i32 1]]] ∧
    out.attributes.map Attribute.fixed = [[.i32 3]] := by
  have hset : shedModules.WellNumbered := by decide
  have hplan : ((Plan.build shedModules (.ofSet shedModules) droppingPolicy).run.run []).1 = .ok shedPlan := by
    decide +kernel
  have hok : ((run shedModules shedPlan droppingPolicy).run.run []).1.isOk := by decide +kernel
  have hleft : ((run shedModules shedPlan droppingPolicy).run.run []).1.toOption.map (fun out =>
      (out.allTypes.map (fun t => t.members.map fun y => y.attributes.map Attribute.fixed),
        out.allTypes.map (fun t => t.attributes.map Attribute.fixed))) =
      some ([[[[.i32 1]], [[.i32 2]]], [[[.i32 1]], [[.i32 2]]]], [[[.i32 1]], [[.i32 1]]]) := by
    decide +kernel
  obtain ⟨out, hrun⟩ := exists_eq_ok hok
  rw [hrun] at hleft
  obtain ⟨hmembers, htypes⟩ := Prod.mk.inj (Option.some.inj hleft)
  obtain ⟨s, hkept, hundropped, hplanned⟩ := run_dropsAttributes hset hrun
  refine ⟨out, s, hplan, hrun, hkept, hundropped, hmembers, htypes, ?_⟩
  -- the one planned attribute is the second one of the attribute source
  obtain ⟨b, rest, ⟨m, a, hm, ha, -, hb, -⟩, hnone, houtput⟩ :=
    List.forall₂_cons_left_iff.1 (hplanned [] hplan)
  obtain rfl := List.forall₂_nil_left_iff.1 hnone
  obtain rfl := Option.some.inj hm
  obtain rfl := Option.some.inj ha
  rw [houtput, List.map_singleton, hb]
  rfl

end Relocation

end ModuleLinker
