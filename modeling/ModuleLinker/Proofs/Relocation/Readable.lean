import ModuleLinker.Proofs.Image.Readable
import ModuleLinker.Proofs.Relocation.ImportSteps
import ModuleLinker.Proofs.Relocation.NestedTypes
import ModuleLinker.Proofs.Relocation.TidyRows

namespace ModuleLinker

/-! # Relocations of what can be read again

Replacing tokens changes no shape of a signature and no place, rows for members are spelled like those of
the sources, and types that become one are as deep as the deepest of them. So the output of modules that can
be read again can be read again.
-/

/-! ## Replaced tokens -/

namespace TypeSig

theorem isNamed_rename (g : Token → Token) (s : TypeSig) : (s.rename g).isNamed = s.isNamed := by
  cases s <;> rfl

mutual

theorem hasNamedBases_rename (g : Token → Token) (s : TypeSig) :
    (s.rename g).hasNamedBases = s.hasNamedBases := by
  cases s with
  | primitive | classType | valueType | typeParam | methodParam => rfl
  | array s | byRef s | pointer s => exact hasNamedBases_rename g s
  | instantiation base arguments =>
    rw [rename, hasNamedBases, hasNamedBases, isNamed_rename, haveNamedBases_renameAll g arguments]

theorem haveNamedBases_renameAll (g : Token → Token) (ss : List TypeSig) :
    haveNamedBases (renameAll g ss) = haveNamedBases ss := by
  cases ss with
  | nil => rfl
  | cons s ss =>
    rw [renameAll, haveNamedBases, haveNamedBases, hasNamedBases_rename g s, haveNamedBases_renameAll g ss]

end

end TypeSig

theorem MethodSig.hasNamedBases_rename (g : Token → Token) (s : MethodSig) :
    (s.rename g).hasNamedBases = s.hasNamedBases := by
  simp only [hasNamedBases, rename, TypeSig.hasNamedBases_rename, ← TypeSig.haveNamedBases_eq_all,
    TypeSig.haveNamedBases_renameAll]

theorem MemberSig.hasNamedBases_rename (g : Token → Token) (s : MemberSig) :
    (s.rename g).hasNamedBases = s.hasNamedBases := by
  cases s with
  | field s => exact s.hasNamedBases_rename g
  | method s => exact s.hasNamedBases_rename g

theorem Method.hasNamedBases_rename (g : Token → Token) (x : Method) :
    (x.rename g).hasNamedBases = x.hasNamedBases := by
  simp only [hasNamedBases, rename, MethodSig.hasNamedBases_rename, Option.all_map]
  congr 2
  funext body
  simp only [MethodBody.rename, ← TypeSig.haveNamedBases_eq_all,
    TypeSig.haveNamedBases_renameAll]

theorem Method.points?_rename (g : Token → Token) (x : Method) : (x.rename g).points? = x.points? := by
  rw [points?, rename, Option.map_map]
  rfl

namespace Member

/-- Neither tokens nor attributes matter. -/
theorem Readable.image {x : Member} (h : x.Readable) (change : List Attribute → List Attribute)
    (g : Token → Token) : ((x.withAttributes change).rename g).Readable := by
  obtain ⟨hbases, hfit⟩ := h
  cases x with
  | field x => exact ⟨(x.signature.hasNamedBases_rename g).trans hbases, nofun⟩
  | property x => exact ⟨(x.signature.hasNamedBases_rename g).trans hbases, nofun⟩
  | event x => exact ⟨rfl, nofun⟩
  | method x =>
    refine ⟨(Method.hasNamedBases_rename g _).trans hbases, ?_⟩
    rw [withAttributes, rename, points, Method.points?_rename]
    exact hfit

end Member

/-! ## Rows for members -/

namespace Importing

/-- Whether the signatures of all rows for members have named types only as bases of instantiations. -/
def Based (tables : ImportTables) : Prop := ∀ r ∈ tables.memberRefs, r.signature.hasNamedBases

/-- From tables that are based, `x` leaves tables that are. -/
def LeavesBased (α : Type) (x : Importing α) : Prop :=
  ∀ tables, Based tables → Ends tables x (fun tables' _ => Based tables') fun _ => True

theorem steps_leavesBased : Steps LeavesBased where
  pure a tables h := .pure h
  bind hx hf tables h := (hx tables h).bind fun a tables' h' => hf a tables' h'
  get tables h := h
  unbound cause tables h := .throw trivial
  fresh table tables h := by
    refine .get ?_
    split
    case h_1 => exact .bind (p := fun tables' _ => Based tables') (.set h) fun _ _ h' => .pure h'
    case h_2 => exact .throw trivial
  change f hf tables h := .change (by rwa [Based, hf])

variable {l : Linkage} {source : Nat}

/-- A row of the output is spelled like the source's, in other tokens. -/
theorem externalMember_leavesBased {r : MemberRef} (hr : r.signature.hasNamedBases) :
    LeavesBased Token (externalMember l source r) := by
  intro tables h
  have htype (t : Token) : LeavesBased Token (type l source t) := steps_leavesBased.type t
  refine (htype r.parent tables h).bind fun parent tables' h' => ?_
  refine (r.signature.mapTokens_holds (fun t s hs => htype t s hs) h').bind ?_
  rintro signature tables'' ⟨h'', hsame⟩
  have hsignature : signature.hasNamedBases := by
    rw [← signature.hasNamedBases_rename fun _ => .null, hsame, r.signature.hasNamedBases_rename]
    exact hr
  refine .of_cases (fun token last hrun => ?_) fun _ _ _ => trivial
  rcases memberRefRow_eq_ok hrun with ⟨row, -, -, rfl⟩ | ⟨-, a, -, rfl⟩
  · exact h''
  · exact List.forall_mem_append.2 ⟨h'', List.forall_mem_singleton.2 hsignature⟩

end Importing

namespace Relocation

open Importing Shape

variable {set : ModuleSet} {plan : Plan} {p : Policy}

theorem importAll_leavesBased {l : Linkage} (plan : Plan)
    (hset : ∀ i m, l.set.source? i = some m → m.Readable) :
    LeavesBased (List Attribute) (importAll l plan) :=
  steps_leavesBased.importAll plan fun i m hm r hr =>
    externalMember_leavesBased ((hset i m hm).memberRefs r hr)

/-! ## Nested types -/

theorem nesting_lt {t u : TypeDef} (h : u ∈ t.nested) : u.nesting < t.nesting := by
  cases t
  exact TypeDef.nestingAll_le_iff.1 le_rfl u h

/-- A type of the output is no deeper than what went into it. -/
theorem NestsFrom.nesting_le {s : Nat → Token → Token} {ts : List (Sourced TypeDef)} {t : TypeDef}
    (h : NestsFrom s ts t) {depth : Nat} (hts : ∀ u ∈ ts, u.value.nesting ≤ depth) :
    t.nesting ≤ depth := by
  induction h generalizing depth with
  | mk heads nested ih =>
    rename_i ts t
    have hinner : ∀ u ∈ nestedOf ts, u.value.nesting < depth := by
      intro u hu
      obtain ⟨v, hv, -, hmem⟩ := mem_nestedOf.1 hu
      exact (nesting_lt hmem).trans_le (hts v hv)
    have hnesting : t.nesting = TypeDef.nestingAll t.nested := by
      cases t
      rfl
    rw [hnesting, TypeDef.nestingAll_le_iff]
    intro w hw
    have hpos : 0 < depth := by
      -- where nothing is nested in what went in, nothing is nested in the output
      rcases hns : nestedOf ts with _ | ⟨u, us⟩
      · rw [hns] at heads
        generalize t.nested = nested at heads hw
        cases heads
        exact nomatch hw
      · exact (Nat.zero_le _).trans_lt (hinner u (hns ▸ List.mem_cons_self))
    have hle : w.nesting ≤ depth - 1 :=
      ih w hw fun v hv => Nat.le_sub_one_of_lt (hinner v (List.mem_of_mem_filter hv))
    omega

/-! ## The output -/

theorem nesting_le_of_emitted (hset : ∀ m ∈ set.inputs, m.Readable) {s : Nat → Token → Token}
    {d : Declaration} {t : TypeDef} (h : NestsFrom s (contributors plan set.declarations d.origin) t) :
    t.nesting ≤ Image.maxNesting := by
  refine h.nesting_le fun u hu => ?_
  obtain ⟨e, he, -, rfl⟩ := mem_contributors.1 hu
  obtain ⟨hm, htype⟩ := ModuleSet.getElem?_of_mem_declarations he
  exact (hset _ (List.mem_of_getElem? hm)).nesting _ htype

/-- The output of modules that can be read again can be read again. -/
theorem run_readable (hset : ∀ i m, set.source? i = some m → m.Readable) {log : Log} {out : Module}
    (hrun : ((run set plan p).run.run log).1 = .ok out) : out.Readable := by
  have hinputs : ∀ m ∈ set.inputs, m.Readable := by
    intro m hm
    obtain ⟨i, hi⟩ := List.mem_iff_getElem?.1 hm
    exact hset i m (ModuleSet.source?_of_getElem? hi)
  obtain ⟨s, hnests⟩ := run_nests hrun
  obtain ⟨shapes, sub, a, attributes, tables, log₁, hlayout, himport, hwritten, -, -, -, hmemberRefs, -⟩ :=
    run_ok hrun
  refine ⟨fun t ht => ?_, fun t ht x hx => ?_, ?_⟩
  · have hdepths : List.Forall₂ (fun t d => t.nesting ≤ Image.maxNesting ∧ EmittedAs plan s d t)
        out.types (set.emitted plan) :=
      hnests.flip.imp fun _ _ h => ⟨nesting_le_of_emitted hinputs h.2, h.1⟩
    exact ((List.forall₂_and_left _ _).1 hdepths).1 t ht
  · obtain ⟨rs, ⟨placed, rfl, hlanded⟩, -⟩ :=
      layOut_settles (Shape.buildAll_lands (.ofSet set p) plan) hlayout
    rw [allTypes_eq hwritten] at ht
    obtain ⟨u, hu, rfl⟩ := List.mem_map.1 ht
    rw [members_image] at hx
    obtain ⟨y, hy, rfl⟩ := List.mem_map.1 hx
    -- every member of a shape is one that an input declares
    obtain ⟨v, ⟨m, hm, hv⟩, hmem⟩ := (hlanded.drawn_within u hu).declared y hy
    exact ((hinputs m (List.mem_of_getElem? hm)).types v hv y.value hmem).image _ _
  · rw [hmemberRefs]
    have hbased : Based ⟨sub, a, [], [], []⟩ := nofun
    exact (importAll_leavesBased plan hset _ hbased).of_run himport

end Relocation

end ModuleLinker
