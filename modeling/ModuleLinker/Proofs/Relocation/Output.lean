import Mathlib.Data.List.Flatten
import ModuleLinker.Proofs.Relocation.Building
import ModuleLinker.Relocation.Output

namespace ModuleLinker

/-! # What a relocation that answers has done

The passes of a relocation one by one: its shapes are built and numbered, the references are
imported, and the types are written under the substitution that is left in the end.

A relocation replaces tokens and does nothing else: one replacement for the tokens of each input turns
the members of the inputs into those of the output, and the declarations with a place of their own
into its top-level types.
-/

namespace Merging

theorem ofExcept_ok {x : Except Fault α} {a : α} {log log' : Log}
    (h : (ofExcept x).run.run log = (.ok a, log')) : x = .ok a ∧ log' = log := by
  have hrun : (ofExcept x).run.run log = (x, log) := rfl
  rw [hrun] at h
  cases h
  exact ⟨rfl, rfl⟩

theorem lift_ok {x : Logging α} {a : α} {log log' : Log}
    (h : (liftM x : Merging α).run.run log = (.ok a, log')) : x.run log = (a, log') := by
  have hrun : (liftM x : Merging α).run.run log = (.ok (x.run log).1, (x.run log).2) := rfl
  rw [hrun] at h
  obtain ⟨ha, hlog⟩ := Prod.mk.inj h
  exact Prod.ext (Except.ok.inj ha) hlog

theorem run_lift {x : Logging α} {a : α} {log log' : Log} (h : x.run log = (a, log')) :
    (liftM x : Merging α).run.run log = (.ok a, log') := by
  have hlift : (liftM x : Merging α).run.run log = (.ok (x.run log).1, (x.run log).2) := rfl
  rw [hlift, h]

end Merging

namespace Relocation

variable {l : Linkage} {set : ModuleSet} {plan : Plan} {policy : Policy}

/-- The shapes that are laid out are those that were built, with the tokens that this redirected. -/
theorem layOut_eq_ok {log log' : Log} {shapes : List Shape} {sub : Substitution} {a : Allocator}
    (h : (layOut l plan).run.run log = (.ok (shapes, sub, a), log')) :
    ∃ redirects, ((Shape.buildAll l plan).run.run []).run log = ((.ok shapes, redirects), log') ∧
      Shape.substitution shapes redirects = .ok (sub, a) := by
  rcases run_bind_eq_ok h with ⟨⟨result, redirects⟩, log₁, hfirst, hrest⟩
  have hbuilt := Merging.lift_ok hfirst
  rcases run_bind_eq_ok hrest with ⟨shapes', log₂, hshapes, hlast⟩
  rcases Merging.ofExcept_ok hshapes with ⟨rfl, rfl⟩
  rcases run_bind_eq_ok hlast with ⟨⟨sub', a'⟩, log₃, hnumbered, hpure⟩
  rcases Merging.ofExcept_ok hnumbered with ⟨hsub, rfl⟩
  cases hpure
  exact ⟨redirects, hbuilt, hsub⟩

/-- What is known of the shapes that are built holds of those that are laid out. -/
theorem layOut_settles {p : List Shape → List Redirect → Prop}
    (hbuild : Shaping.Settles (Shape.buildAll l plan) p) {log log' : Log} {shapes : List Shape}
    {sub : Substitution} {a : Allocator}
    (h : (layOut l plan).run.run log = (.ok (shapes, sub, a), log')) :
    ∃ redirects, p shapes redirects ∧ Shape.substitution shapes redirects = .ok (sub, a) := by
  obtain ⟨redirects, hbuilt, hsub⟩ := layOut_eq_ok h
  exact ⟨redirects, hbuild.of_run hbuilt, hsub⟩

/-- What is left of the first pass. -/
theorem layOut_ok (hset : l.set.WellNumbered) {log log' : Log} {shapes : List Shape}
    {sub : Substitution} {a : Allocator}
    (h : (layOut l plan).run.run log = (.ok (shapes, sub, a), log')) :
    ∃ placed redirects, shapes = placed.map Prod.snd ∧
      Shape.Built l plan l.set.declarations placed redirects ∧
      Shape.Numbered shapes redirects sub := by
  rcases layOut_settles (Shape.buildAll_settles hset plan) h with
    ⟨redirects, ⟨placed, rfl, hbuilt⟩, hsub⟩
  exact ⟨placed, redirects, rfl, hbuilt, Shape.substitution_ok (hbuilt.accounted hset) hsub⟩

/-- Shapes that are built and numbered are laid out. -/
theorem layOut_of_built {log log' : Log} {shapes : List Shape} {redirects : List Redirect}
    {sub : Substitution} {a : Allocator}
    (hbuilt : ((Shape.buildAll l plan).run.run []).run log = ((.ok shapes, redirects), log'))
    (hsub : Shape.substitution shapes redirects = .ok (sub, a)) :
    (layOut l plan).run.run log = (.ok (shapes, sub, a), log') := by
  unfold layOut
  rw [run_bind_of_ok (Merging.run_lift hbuilt)]
  dsimp only
  rw [Merging.ofExcept_ok_bind, hsub, Merging.ofExcept_ok_bind]
  rfl

/-- The module that the passes of a relocation make up. -/
def outcome (set : ModuleSet) (plan : Plan) (tables : ImportTables) (types : List TypeDef)
    (attributes : List Attribute) (entryPoint : Option Token) : Module :=
  let primary := set.primary.module
  { Module.ofIdentity primary.identity primary.kind with
    platform := primary.platform, references := tables.references, typeRefs := tables.typeRefs
    memberRefs := tables.memberRefs, types, resources := plan.resources, attributes, entryPoint }

/-- The passes of a relocation with what they make up. -/
theorem run_eq_ok {log : Log} {out : Module} (h : ((run set plan policy).run.run log).1 = .ok out) :
    ∃ shapes sub a attributes tables types entryPoint log',
      (layOut (.ofSet set policy) plan).run.run log = (.ok (shapes, sub, a), log') ∧
      (importAll (.ofSet set policy) plan).run.run ⟨sub, a, [], [], []⟩ = (.ok attributes, tables) ∧
      Shape.writeAll (.ofSet set policy) tables.substitution shapes = .ok types ∧
      set.primary.module.entryPoint.mapM (tables.substitution.resolve 0) = .ok entryPoint ∧
      out = outcome set plan tables types attributes entryPoint := by
  rcases hrun : (run set plan policy).run.run log with ⟨result, log'⟩
  rw [hrun] at h
  obtain rfl : result = .ok out := h
  obtain ⟨⟨shapes, sub, a⟩, log₁, hlayout, hrest⟩ := run_bind_eq_ok hrun
  -- references are imported from tables without rows
  rcases himport : (importAll (.ofSet set policy) plan).run.run ⟨sub, a, [], [], []⟩ with
    ⟨imported, tables⟩
  dsimp only at hrest
  rw [himport] at hrest
  obtain ⟨attributes, log₂, hattributes, hrest₂⟩ := run_bind_eq_ok hrest
  obtain ⟨rfl, rfl⟩ := Merging.ofExcept_ok hattributes
  obtain ⟨types, log₃, htypes, hrest₃⟩ := run_bind_eq_ok hrest₂
  obtain ⟨hwritten, rfl⟩ := Merging.ofExcept_ok htypes
  obtain ⟨entry, log₄, hentry, hrest₄⟩ := run_bind_eq_ok hrest₃
  obtain ⟨hresolved, rfl⟩ := Merging.ofExcept_ok hentry
  obtain ⟨_, log₅, _, hpure⟩ := run_bind_eq_ok hrest₄
  cases hpure
  exact ⟨shapes, sub, a, attributes, tables, types, entry, _, hlayout, himport, hwritten, hresolved, rfl⟩

/-- Where all passes answer, so does the relocation. -/
theorem run_of_passes {log log' : Log} {shapes : List Shape} {sub : Substitution} {a : Allocator}
    {attributes : List Attribute} {tables : ImportTables} {types : List TypeDef} {entryPoint : Option Token}
    (hlayout : (layOut (.ofSet set policy) plan).run.run log = (.ok (shapes, sub, a), log'))
    (himport : (importAll (.ofSet set policy) plan).run.run ⟨sub, a, [], [], []⟩ = (.ok attributes, tables))
    (hwritten : Shape.writeAll (.ofSet set policy) tables.substitution shapes = .ok types)
    (hentry : set.primary.module.entryPoint.mapM (tables.substitution.resolve 0) = .ok entryPoint) :
    ((run set plan policy).run.run log).1 = .ok (outcome set plan tables types attributes entryPoint) := by
  unfold run
  rw [run_bind_of_ok hlayout]
  dsimp only
  rw [himport]
  dsimp only
  rw [Merging.ofExcept_ok_bind, hwritten, Merging.ofExcept_ok_bind, hentry, Merging.ofExcept_ok_bind]
  rfl

/-- The passes of a relocation. -/
theorem run_ok {log : Log} {out : Module} (h : ((run set plan policy).run.run log).1 = .ok out) :
    ∃ shapes sub a attributes tables log',
      (layOut (.ofSet set policy) plan).run.run log = (.ok (shapes, sub, a), log') ∧
      (importAll (.ofSet set policy) plan).run.run ⟨sub, a, [], [], []⟩ = (.ok attributes, tables) ∧
      Shape.writeAll (.ofSet set policy) tables.substitution shapes = .ok out.types ∧
      set.primary.module.entryPoint.mapM (tables.substitution.resolve 0) = .ok out.entryPoint ∧
      out.references = tables.references ∧ out.typeRefs = tables.typeRefs ∧
      out.memberRefs = tables.memberRefs ∧ out.attributes = attributes := by
  obtain ⟨shapes, sub, a, attributes, tables, types, entryPoint, log', hlayout, himport, hwritten, hentry,
    rfl⟩ := run_eq_ok h
  exact ⟨shapes, sub, a, attributes, tables, log', hlayout, himport, hwritten, hentry, rfl, rfl, rfl, rfl⟩

/-- The types of the output, nested ones too, are the images of the shapes. -/
theorem allTypes_eq {sub : Substitution} {shapes : List Shape} {out : Module}
    (h : Shape.writeAll l sub shapes = .ok out.types) :
    out.allTypes = (Shape.withinAll shapes).map (Shape.image l sub) := by
  rw [Module.allTypes, ← TypeDef.withinAll_eq, (Shape.writeAll_ok _ h).1, Shape.withinAll_imageAll]

/-! ## Two modules with the same type -/

/-- A class `N.Box` with a field that its method loads, and with a type nested in it. -/
def boxType (base : Token) : TypeDef :=
  let value : Field := ⟨⟨0x04000001⟩, "value", ⟨0x1⟩, .primitive .i4, []⟩
  let get : Method :=
    ⟨⟨0x06000001⟩, "Get", ⟨0x6⟩, ⟨true, 0, .primitive .i4, []⟩,
      some (.ofCode [(0x02, .none), (0x7B, .token ⟨0x04000001⟩), (0x2A, .none)]), []⟩
  let inner : TypeDef := ⟨⟨0x02000002⟩, "", "Inner", ⟨0x2⟩, some base, [], [], [], [], [], [], [], []⟩
  ⟨⟨0x02000001⟩, "N", "Box", ⟨0x1⟩, some base, [], [], [value], [get], [], [], [inner], []⟩

/-- A module that declares `N.Box` over the object type of another module. -/
def boxModule (name : String) (entryPoint : Option Token) : Module :=
  { Module.ofIdentity (.ofName name ⟨1, 0, 0, 0⟩) .dll with
    references := [.ofName "core" ⟨4, 0, 0, 0⟩]
    typeRefs := [⟨⟨0x01000001⟩, .reference 0, "System", "Object"⟩]
    memberRefs := [⟨⟨0x0A000001⟩, ⟨0x01000001⟩, ".ctor", .method ⟨true, 0, .primitive .void, []⟩⟩]
    types := [boxType ⟨0x01000001⟩]
    entryPoint }

/-- Two modules that both declare it. -/
def boxes : ModuleSet :=
  { primary := ⟨⟨"first.dll"⟩, boxModule "first" (some ⟨0x06000001⟩)⟩
    others := [⟨⟨"second.dll"⟩, boxModule "second" none⟩], references := [], attributeSource := none }

/-- The plan to make one type of the two. -/
def boxPlan : Plan :=
  { placements := [(⟨0, 0⟩, .emit "Box" false), (⟨1, 0⟩, .into ⟨0, 0⟩)], resources := []
    attributes := [], renames := [], hidden := 0 }

/-- A policy that asks for nothing but that types of one name become one type. -/
def unionPolicy : Policy :=
  ⟨{ inputs := [], searchDirectories := [], output := ⟨"out.dll"⟩, targetKind := .sameAsPrimary
     platform := none, platformDirectory := none, unionMerge := true, internalize := false
     renameInternalized := false, keepSerializable := false, internalizeModules := []
     excludePatterns := [], allowDuplicateResources := false, sharedNamespaces := []
     copyAttributes := false, allowMultipleAttributes := false, attributeFile := none
     droppedAttributes := [], mergeLinkerMetadata := false, allowUnspecifiedKind := false
     expandWildcards := false, mergeDocumentation := false, omitManifest := false
     keepSymbols := false, keyFile := none, keyContainer := none, delaySign := false
     logFile := none, verbose := false, workingDirectory := ⟨"/"⟩ }, [], []⟩

/-- A policy that asks for nothing. -/
def plainPolicy : Policy := { unionPolicy with options := { unionPolicy.options with unionMerge := false } }

theorem run_boxes : ∃ out, ((run boxes boxPlan unionPolicy).run.run []).1 = .ok out := by
  have hok : ((run boxes boxPlan unionPolicy).run.run []).1.isOk := by decide +kernel
  exact exists_eq_ok hok

end Relocation

/-! ## Faithful relocation -/

namespace Relocation

variable {set : ModuleSet} {plan : Plan} {policy : Policy}

/-- `t` is the top-level type that a plan makes of a declaration. -/
structure EmittedAs (plan : Plan) (s : Nat → Token → Token) (d : Declaration) (t : TypeDef) :
    Prop where
  token : t.token = s d.origin.module d.type.token
  namespaceName : t.namespaceName = d.type.namespaceName
  placed : ∃ name hide, plan.placement? d.origin = some (.emit name hide) ∧ t.name = name ∧
    t.flags = if hide then d.type.flags.withVisibility .notPublic else d.type.flags

/-- `t` is made of a type of an input and of members of inputs. -/
structure MadeOf (l : Linkage) (s : Nat → Token → Token) (t : TypeDef)
    (origin : Sourced TypeDef × List (Sourced Member)) : Prop where
  declared : l.set.Declares origin.1
  token : t.token = s origin.1.source origin.1.value.token
  base : t.base = origin.1.value.base.map (s origin.1.source)
  genericParams : t.genericParams = origin.1.value.genericParams
  parts : ∀ x ∈ origin.2, l.set.DeclaresMember x
  members : t.members = origin.2.map (Shape.memberImage l s)

theorem emittedAs_image {l : Linkage} {sub : Substitution} {d : Declaration} {s : Shape}
    (h : Shape.StandsFor plan d s) : EmittedAs plan sub.counterpart d (s.image l sub) := by
  rcases s with ⟨source, origin, name, flags, fields, methods, properties, events, interfaces,
    attributes, nested, members, interfaceNames⟩
  obtain ⟨hsource, horigin, hplaced⟩ := h
  dsimp only at hsource horigin
  subst hsource horigin
  exact ⟨rfl, rfl, hplaced⟩

theorem madeOf_image {l : Linkage} {sub : Substitution} {s : Shape} (h : Shape.Sound l s) :
    MadeOf l sub.counterpart (s.image l sub) (⟨s.source, s.origin⟩, s.parts) := by
  have hmembers := s.members_image l sub
  rcases s with ⟨source, origin, name, flags, fields, methods, properties, events, interfaces,
    attributes, nested, members, interfaceNames⟩
  exact ⟨h.origin, rfl, rfl, rfl, h.parts, hmembers⟩

/-- The types that are written are those with a place of their own. -/
theorem emittedAs_written {l : Linkage} {sub : Substitution} {placed : Shape.PlacedShapes}
    {redirects : List Redirect} (hbuilt : Shape.Built l plan l.set.declarations placed redirects)
    {types : List TypeDef} (h : Shape.writeAll l sub (placed.map Prod.snd) = .ok types) :
    List.Forall₂ (EmittedAs plan sub.counterpart) (l.set.emitted plan) types := by
  rw [(Shape.writeAll_ok _ h).1, Shape.imageAll_eq, List.map_map, List.forall₂_map_right_iff]
  exact hbuilt.placed.imp fun d p hp => emittedAs_image hp.2

/-- The members of shapes that are accounted for are all different. -/
theorem nodup_parts {shapes : List Shape} {redirects : List Redirect}
    (h : Shape.Accounted shapes redirects) :
    (((Shape.withinAll shapes).flatMap Shape.parts).map Shape.partKey).Nodup := by
  rw [List.map_flatMap]
  -- the tokens that are accounted for are those of members and of the types themselves
  refine h.nodup.of_append_left.sublist (List.Sublist.flatMap_right _ fun s _ => ?_)
  exact List.sublist_cons_self ..

/-- A relocation that answers gives one replacement of tokens, of which every token in the output's
types is an image. The types with a place of their own are the top-level types, in the order of
declarations; every member of every type is the image of a member of an input, and no two of them are
images of the same one. -/
theorem run_faithful (hset : set.WellNumbered) {log : Log} {out : Module}
    (h : ((run set plan policy).run.run log).1 = .ok out) :
    ∃ s : Nat → Token → Token,
      (∀ source t, Substitution.isShared t → s source t = t) ∧
      List.Forall₂ (EmittedAs plan s) (set.emitted plan) out.types ∧
      (∃ origins : List (Sourced TypeDef × List (Sourced Member)),
        List.Forall₂ (MadeOf (.ofSet set policy) s) out.allTypes origins ∧
        ((origins.flatMap Prod.snd).map Shape.partKey).Nodup) ∧
      out.entryPoint = set.primary.module.entryPoint.map (s 0) := by
  obtain ⟨shapes, sub, a, attributes, tables, log', hlayout, -, hwritten, hentry, -⟩ := run_ok h
  have hset' : (Linkage.ofSet set policy).set.WellNumbered := hset
  obtain ⟨placed, redirects, rfl, hbuilt, -⟩ := layOut_ok hset' hlayout
  have haccounted := hbuilt.accounted hset'
  refine ⟨tables.substitution.counterpart, ?_, ?_, ?_, ?_⟩
  · intro source t hshared
    rw [Substitution.counterpart, if_pos hshared]
  · exact emittedAs_written hbuilt hwritten
  · refine ⟨(Shape.withinAll (placed.map Prod.snd)).map fun s => (⟨s.source, s.origin⟩, s.parts), ?_, ?_⟩
    · rw [allTypes_eq hwritten, List.forall₂_map_left_iff, List.forall₂_map_right_iff]
      refine List.forall₂_same.2 fun s hs => ?_
      rw [Shape.withinAll_eq, List.flatMap_map] at hs
      obtain ⟨p, hp, hmem⟩ := List.mem_flatMap.1 hs
      exact madeOf_image (hbuilt.sound p hp s hmem)
    · rw [List.flatMap_map]
      exact nodup_parts haccounted
  · exact (mapM_option_ok (fun _ _ => token_ok (tables.substitution.follows_resolve 0)) hentry).1

theorem run_faithful_boxes : ∃ out s, ((run boxes boxPlan unionPolicy).run.run []).1 = .ok out ∧
    List.Forall₂ (EmittedAs boxPlan s) (boxes.emitted boxPlan) out.types ∧
    out.entryPoint = some (s 0 ⟨0x06000001⟩) := by
  obtain ⟨out, h⟩ := run_boxes
  obtain ⟨s, -, htypes, -, hentry⟩ := run_faithful (by decide) h
  exact ⟨out, s, h, htypes, hentry⟩

end Relocation

end ModuleLinker
