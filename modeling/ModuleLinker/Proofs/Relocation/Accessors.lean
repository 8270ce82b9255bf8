import ModuleLinker.Proofs.Relocation.Duplicates
import ModuleLinker.Proofs.Relocation.MemberReferences

namespace ModuleLinker

/-! # Accessors stay with their type

A property and the methods behind it are taken into a shape one by one. Where types are joined, the
property may be that of one module, while its getter was dropped for an equal method of another. The
getter's token is then redirected to that method, and this one is in the same shape: a type that has
given a member to a shape has all its members there.
-/

/-- The accessors of a type's properties and events are methods of the type. -/
def TypeDef.OwnsAccessors (t : TypeDef) : Prop :=
  ∀ x ∈ t.members, ∀ accessor ∈ x.accessors, ∀ token ∈ accessor, ∃ a ∈ t.methods, a.token = token

instance (t : TypeDef) : Decidable t.OwnsAccessors :=
  inferInstanceAs (Decidable (∀ x ∈ t.members, ∀ accessor ∈ x.accessors, ∀ token ∈ accessor,
    ∃ a ∈ t.methods, a.token = token))

/-- In every type of the inputs, accessors are methods of the type. -/
def ModuleSet.OwnsAccessors (set : ModuleSet) : Prop :=
  ∀ m ∈ set.inputs, ∀ t ∈ m.allTypes, t.OwnsAccessors

instance (set : ModuleSet) : Decidable set.OwnsAccessors :=
  inferInstanceAs (Decidable (∀ m ∈ set.inputs, ∀ t ∈ m.allTypes, t.OwnsAccessors))

/-- `new` is the token of a method of `t` that has the name of the method of `u` with the token `old`. -/
def TypeDef.TakesOver (u t : TypeDef) (old new : Token) : Prop :=
  ∃ a ∈ u.methods, a.token = old ∧ ∃ b ∈ t.methods, b.token = new ∧ b.name = a.name

theorem TypeDef.method_mem_members_iff {t : TypeDef} {a : Method} : .method a ∈ t.members ↔ a ∈ t.methods := by
  simp [members]

/-- What has the key of a method is a method of the same name. -/
theorem Member.exists_method_of_key_eq {names names' : NameTable} {x : Member} {a : Method}
    (h : x.key names = (Member.method a).key names') : ∃ b, x = .method b ∧ b.name = a.name := by
  cases x with
  | method b => exact ⟨b, rfl, (MemberKey.method.inj h).1⟩
  | field x | property x | event x => exact nomatch h

namespace Relocation

open Shape

variable {l : Linkage} {set : ModuleSet} {plan : Plan} {policy : Policy} {out : Module}

namespace Carried

variable {placed : PlacedShapes} {rs : List Redirect} {start tables : ImportTables} {s : Shape}

/-- A type of which a shape has a member has landed in this shape with all its members. -/
theorem exists_received (h : Carried l plan out placed rs start tables) (hset : l.set.Identified)
    (hs : s ∈ withinAll (placed.map Prod.snd)) {x : Sourced Member} (hx : x ∈ s.parts) :
    ∃ u, l.set.Declares ⟨x.source, u⟩ ∧ x.value ∈ u.members ∧ ReceivesMembers l rs x.source u s := by
  have hdrawn := h.landed.drawn_within s hs
  obtain ⟨u, hu, hmem⟩ := hdrawn.declared x hx
  obtain ⟨s', hs', hlands, -⟩ := h.exists_lands hset hu
  have hfiled : partKey x ∈ s.filed := List.mem_cons_of_mem _ (hdrawn.parts x hx)
  -- the shape has the member itself, so it is not redirected but filed where its type has landed
  obtain ⟨kept, hkept, hgoes⟩ := hlands.members x.value hmem
  obtain rfl : partKey x = kept := h.landed.eq_of_goesTo hset (List.mem_flatMap.2 ⟨s, hs, hfiled⟩) hgoes
  have hfiled' : partKey x ∈ s'.filed := List.mem_cons_of_mem _ (List.mem_map_of_mem hkept)
  obtain rfl := h.landed.eq_of_filed hset hs hs' hfiled hfiled'
  exact ⟨u, hu, hmem, hlands.members⟩

/-- The counterpart of a method's token is taken over by the type that is written for the method's shape. -/
theorem takesOver (h : Carried l plan out placed rs start tables) (hset : l.set.WellNumbered)
    (hs : s ∈ withinAll (placed.map Prod.snd)) {source : Nat} {u : TypeDef}
    (hreceives : ReceivesMembers l rs source u s) {a : Method} (ha : a ∈ u.methods) :
    u.TakesOver (s.image l tables.substitution) a.token
      (tables.substitution.counterpart source a.token) := by
  obtain ⟨z, hz, hkey, htoken⟩ := h.exists_part hset hs hreceives (TypeDef.method_mem_members_iff.2 ha)
  obtain ⟨b, hb, hname⟩ := Member.exists_method_of_key_eq hkey
  have himage : memberImage l tables.substitution.counterpart z ∈ (s.image l tables.substitution).members := by
    rw [members_image]
    exact List.mem_map_of_mem hz
  rw [memberImage, hb] at himage
  rw [hb] at htoken
  exact ⟨a, ha, rfl, _, TypeDef.method_mem_members_iff.1 himage, htoken, hname⟩

end Carried

/-- Where tokens are numbered well and the accessors of the inputs are methods of their types, so are those
of the output: every property and every event of a type, however deep it is nested and whether or not it
was joined with others, is that of an input, and in the place of its accessors it has methods of the same
names which its own type declares. -/
theorem run_ownsAccessors (hset : set.WellNumbered) (howned : set.OwnsAccessors) {log : Log}
    (hrun : ((run set plan policy).run.run log).1 = .ok out) :
    ∃ s : Nat → Token → Token, ∀ t ∈ out.allTypes, ∀ y ∈ t.members, ∃ u x, set.Declares u ∧
      x ∈ u.value.members ∧ y = memberImage (.ofSet set policy) s ⟨u.source, x⟩ ∧
        List.Forall₂ (Option.Rel (u.value.TakesOver t)) x.accessors y.accessors := by
  have hset' : (Linkage.ofSet set policy).set.WellNumbered := hset
  obtain ⟨placed, rs, start, tables, hcarried⟩ := run_carries hset.identified hrun
  refine ⟨tables.substitution.counterpart, ?_⟩
  rw [hcarried.allTypes_eq, List.forall_mem_map]
  intro s hs y hy
  rw [members_image] at hy
  obtain ⟨⟨source, x⟩, hx, rfl⟩ := List.mem_map.1 hy
  obtain ⟨u, hu, hmem, hreceives⟩ := hcarried.exists_received hset'.identified hs hx
  refine ⟨⟨source, u⟩, x, hu, hmem, rfl, ?_⟩
  rw [memberImage, Member.accessors_rename, Member.accessors_withAttributes, List.forall₂_map_right_iff,
    List.forall₂_same]
  intro accessor haccessor
  cases accessor with
  | none => exact .none
  | some token =>
    obtain ⟨m, hm, hdeclared⟩ := hu
    obtain ⟨a, ha, rfl⟩ := howned m (List.mem_of_getElem? hm) u hdeclared x hmem _ haccessor token rfl
    exact .some (hcarried.takesOver hset' hs hreceives ha)

/-! ## A property whose getter is another module's -/

/-- A class `N.T` with a method for its size, and with a class nested in it that has one for handlers. -/
def gaugeType (size handler : Token) (properties : List Property) (events : List Event) : TypeDef :=
  { methodsType ⟨0x02000001⟩ "T" none [bareMethod size "get_Size"] with
    properties
    nested := [{ methodsType ⟨0x02000002⟩ "Part" none [bareMethod handler "add_Done"] with
      namespaceName := "", events }] }

/-- Two modules with such classes. Only those of the second one have a property and an event, and their
methods have the tokens of the first module the other way round. -/
def gauges : ModuleSet :=
  { primary := ⟨⟨"A.dll"⟩, { Module.ofIdentity (.ofName "A" ⟨1, 0, 0, 0⟩) .dll with
      types := [gaugeType ⟨0x06000001⟩ ⟨0x06000002⟩ [] []] }⟩
    others := [⟨⟨"B.dll"⟩, { Module.ofIdentity (.ofName "B" ⟨1, 0, 0, 0⟩) .dll with
      types := [gaugeType ⟨0x06000002⟩ ⟨0x06000001⟩
        [⟨⟨0x17000001⟩, "Size", .primitive .i4, some ⟨0x06000002⟩, none, []⟩]
        [⟨⟨0x14000001⟩, "Done", ⟨0x02000001⟩, some ⟨0x06000001⟩, none, []⟩]] }⟩]
    references := [], attributeSource := none }

/-- Both classes get the methods of the first module and the property and the event of the second one,
which have these methods now. -/
theorem run_ownsAccessors_gauges : gauges.OwnsAccessors ∧ ∃ out s,
    ((run gauges pairPlan unionPolicy).run.run []).1 = .ok out ∧
    (∀ t ∈ out.allTypes, ∀ y ∈ t.members, ∃ u x, gauges.Declares u ∧ x ∈ u.value.members ∧
      y = memberImage (.ofSet gauges unionPolicy) s ⟨u.source, x⟩ ∧
        List.Forall₂ (Option.Rel (u.value.TakesOver t)) x.accessors y.accessors) ∧
    out.allTypes.map (fun t => t.members.map fun y => (y.token, y.accessors)) =
      [[(⟨0x06000001⟩, []), (⟨0x17000001⟩, [some ⟨0x06000001⟩, none])],
        [(⟨0x06000002⟩, []), (⟨0x14000001⟩, [some ⟨0x06000002⟩, none])]] := by
  have hset : gauges.WellNumbered := by decide
  have howned : gauges.OwnsAccessors := by decide
  have hok : ((run gauges pairPlan unionPolicy).run.run []).1.isOk := by decide +kernel
  have hshown : ((run gauges pairPlan unionPolicy).run.run []).1.toOption.map (fun out =>
      out.allTypes.map (fun t => t.members.map fun y => (y.token, y.accessors))) =
      some [[(⟨0x06000001⟩, []), (⟨0x17000001⟩, [some ⟨0x06000001⟩, none])],
        [(⟨0x06000002⟩, []), (⟨0x14000001⟩, [some ⟨0x06000002⟩, none])]] := by
    decide +kernel
  obtain ⟨out, hrun⟩ := exists_eq_ok hok
  rw [hrun] at hshown
  obtain ⟨s, hkept⟩ := run_ownsAccessors hset howned hrun
  exact ⟨howned, out, s, hrun, hkept, Option.some.inj hshown⟩

end Relocation

end ModuleLinker
