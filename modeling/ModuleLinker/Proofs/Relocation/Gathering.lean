import ModuleLinker.Proofs.Relocation.Building

namespace ModuleLinker

/-! # What a shape gathers

A shape takes in one type after another. What it has in the end are the keys of the members of all of
them, each key once; and for each name of a type nested in some of them it has one nested shape, which
has gathered the nested types of that name in the same way.
-/

/-- Whether a declaration goes into the type of the output that starts at a place: it is the type
there, or it becomes part of that type. -/
def Plan.GoesInto (plan : Plan) (d : Declaration) (origin : Origin) : Prop :=
  d.origin = origin ∨ plan.placement? d.origin = some (.into origin)

instance (plan : Plan) (d : Declaration) (origin : Origin) : Decidable (plan.GoesInto d origin) :=
  inferInstanceAs (Decidable (_ ∨ _))

namespace Shape

open Shaping

variable {l : Linkage} {source : Nat} {ts ns : List (Sourced TypeDef)}

/-- The types nested in types. -/
def nestedOf (ts : List (Sourced TypeDef)) : List (Sourced TypeDef) :=
  ts.flatMap fun t => t.value.nested.map (Sourced.mk t.source)

theorem nestedOf_append_singleton (ts : List (Sourced TypeDef)) (t : Sourced TypeDef) :
    nestedOf (ts ++ [t]) = nestedOf ts ++ t.value.nested.map (Sourced.mk t.source) := by
  rw [nestedOf, List.flatMap_append, List.flatMap_singleton]
  rfl

theorem mem_nestedOf {ts : List (Sourced TypeDef)} {u : Sourced TypeDef} :
    u ∈ nestedOf ts ↔ ∃ t ∈ ts, u.source = t.source ∧ u.value ∈ t.value.nested := by
  simp only [nestedOf, List.mem_flatMap, List.mem_map]
  constructor
  · rintro ⟨t, ht, v, hv, rfl⟩
    exact ⟨t, ht, rfl, hv⟩
  · rintro ⟨t, ht, hsource, hv⟩
    exact ⟨t, ht, u.value, hv, by rw [← hsource]⟩

/-- The types with a name. -/
def named (name : String) (ts : List (Sourced TypeDef)) : List (Sourced TypeDef) :=
  ts.filter fun t => t.value.name == name

theorem named_append_of_eq {name : String} {t : Sourced TypeDef} (h : t.value.name = name) :
    named name (ts ++ [t]) = named name ts ++ [t] := by
  simp [named, List.filter_append, h]

theorem named_append_of_ne {name : String} {t : Sourced TypeDef} (h : t.value.name ≠ name) :
    named name (ts ++ [t]) = named name ts := by
  simp [named, List.filter_append, h]

/-! ## Types of one name -/

section Named

variable {name : α → String} {P : List (Sourced TypeDef) → α → Prop} {t : Sourced TypeDef}

/-- What things of different names have of the types of their names they go on to have when one of them
takes in a further type of its name. -/
theorem forall_named_replace {before after : List α} {found found' : α}
    (hdistinct : ((before ++ found :: after).map name).Nodup)
    (heach : ∀ n ∈ before ++ found :: after, P (named (name n) ns) n) (ht : t.value.name = name found)
    (hname : name found' = name found) (hfound : P (named (name found) ns ++ [t]) found') :
    ∀ n ∈ before ++ found' :: after, P (named (name n) (ns ++ [t])) n := by
  rw [List.map_append, List.map_cons, List.nodup_middle, List.nodup_cons, ← List.map_append] at hdistinct
  have hother : ∀ n ∈ before ++ after, P (named (name n) (ns ++ [t])) n := by
    intro n hn
    have hne : t.value.name ≠ name n := by
      rw [ht]
      exact fun heq => hdistinct.1 (heq ▸ List.mem_map_of_mem hn)
    rw [named_append_of_ne hne]
    refine heach n ?_
    rcases List.mem_append.1 hn with hbefore | hafter
    · exact List.mem_append_left _ hbefore
    · exact List.mem_append_right _ (List.mem_cons_of_mem _ hafter)
  intro n hn
  rcases List.mem_append.1 hn with hbefore | hafter
  · exact hother n (List.mem_append_left _ hbefore)
  · rcases List.mem_cons.1 hafter with rfl | hafter
    · rw [hname, named_append_of_eq ht]
      exact hfound
    · exact hother n (List.mem_append_right _ hafter)

/-- They do so too when a type of a new name gets a thing of its own. -/
theorem forall_named_append {ms : List α} {m : α} (heach : ∀ n ∈ ms, P (named (name n) ns) n)
    (hnew : ∀ n ∈ ms, name n ≠ t.value.name) (hfresh : ∀ u ∈ ns, u.value.name ≠ t.value.name)
    (hname : name m = t.value.name) (hm : P [t] m) :
    ∀ n ∈ ms ++ [m], P (named (name n) (ns ++ [t])) n := by
  intro n hn
  rcases List.mem_append.1 hn with hold | hlast
  · rw [named_append_of_ne (hnew n hold).symm]
    exact heach n hold
  · obtain rfl := List.mem_singleton.1 hlast
    have hnone : named (name n) ns = [] := by
      rw [named, List.filter_eq_nil_iff]
      intro u hu hbeq
      exact hfresh u hu ((beq_iff_eq.1 hbeq).trans hname)
    rw [named_append_of_eq hname.symm, hnone]
    exact hm

end Named

/-- The shape that a nested type goes into, and what takes its place. -/
theorem eq_append_of_find? {shapes : List Shape} {name : String} {found : Shape} {index : Nat}
    (h : shapes.zipIdx.find? (fun (s, _) => s.name == name) = some (found, index)) :
    ∃ before after, shapes = before ++ found :: after ∧ found.name = name ∧
      ∀ new, (before ++ found :: after).set index new = before ++ new :: after := by
  have hget : shapes[index]? = some found :=
    List.mem_zipIdx_iff_getElem?.1 (List.mem_of_find?_eq_some h)
  obtain ⟨hlt, hfound⟩ := List.getElem?_eq_some_iff.1 hget
  have hshapes : shapes = shapes.take index ++ found :: shapes.drop (index + 1) := by
    rw [← hfound, List.getElem_cons_drop, List.take_append_drop]
  refine ⟨_, _, hshapes, by simpa using List.find?_some h, fun new => ?_⟩
  rw [← hshapes, List.set_eq_take_append_cons_drop, if_pos hlt]

/-- A nested type goes into no shape if there is none of its name. -/
theorem forall_ne_of_find? {shapes : List Shape} {name : String}
    (h : shapes.zipIdx.find? (fun (s, _) => s.name == name) = none) : ∀ n ∈ shapes, n.name ≠ name := by
  intro n hn heq
  obtain ⟨index, hindex⟩ := List.mem_iff_getElem?.1 hn
  have hne := List.find?_eq_none.1 h (n, index) (List.mk_mem_zipIdx_iff_getElem?.2 hindex)
  exact hne (by simpa using heq)

/-! ## Shapes with what is nested in them -/

/-- A shape has a property of the types that have gone into it. Of the types nested in these, those of each
name have gone into one nested shape, which has the property of them in the same way. -/
inductive Composed (P : List (Sourced TypeDef) → Shape → Prop) : List (Sourced TypeDef) → Shape → Prop
  | mk {ts : List (Sourced TypeDef)} {s : Shape} (own : P ts s)
      (distinct : (s.nested.map Shape.name).Nodup)
      (names : ∀ name, name ∈ s.nested.map Shape.name ↔
        name ∈ (nestedOf ts).map fun t => t.value.name)
      (nested : ∀ n ∈ s.nested, Composed P (named n.name (nestedOf ts)) n) : Composed P ts s

/-- Some types have gone into shapes, those of one name into one shape. -/
structure ComposedAll (P : List (Sourced TypeDef) → Shape → Prop) (ns : List (Sourced TypeDef))
    (shapes : List Shape) : Prop where
  distinct : (shapes.map Shape.name).Nodup
  names : ∀ name, name ∈ shapes.map Shape.name ↔ name ∈ ns.map fun t => t.value.name
  each : ∀ n ∈ shapes, Composed P (named n.name ns) n

/-- A property of shapes and of the types that have gone into them that goes on to hold when a shape takes
in the parts of one more type, and with which its name, its flags and its nested shapes have nothing to
do. -/
structure TakesParts (l : Linkage) (P : List (Sourced TypeDef) → Shape → Prop) : Prop where
  start : ∀ source t, P [] (ofType source t)
  parts : ∀ {source t}, l.set.Declares ⟨source, t⟩ → ∀ {ts s}, P ts s →
    Yields (takeParts l source t s) fun s' _ =>
      s'.name = s.name ∧ s'.nested = s.nested ∧ P (ts ++ [⟨source, t⟩]) s'
  frame : ∀ {ts s}, P ts s → ∀ name flags nested, P ts { s with name, flags, nested }

section Composed

variable {P : List (Sourced TypeDef) → Shape → Prop}

theorem composed_iff {s : Shape} : Composed P ts s ↔ P ts s ∧ ComposedAll P (nestedOf ts) s.nested := by
  constructor
  · rintro ⟨own, distinct, names, nested⟩
    exact ⟨own, distinct, names, nested⟩
  · rintro ⟨own, distinct, names, nested⟩
    exact ⟨own, distinct, names, nested⟩

namespace ComposedAll

theorem nil : ComposedAll P [] [] := by
  refine ⟨List.nodup_nil, ?_, nofun⟩
  intro name
  exact iff_of_false List.not_mem_nil List.not_mem_nil

/-- A nested shape takes in a further type of its name. -/
theorem replace {before after : List Shape} {found found' : Shape} {t : Sourced TypeDef}
    (h : ComposedAll P ns (before ++ found :: after)) (ht : t.value.name = found.name)
    (hname : found'.name = found.name) (hfound : Composed P (named found.name ns ++ [t]) found') :
    ComposedAll P (ns ++ [t]) (before ++ found' :: after) := by
  have hsame : (before ++ found' :: after).map Shape.name =
      (before ++ found :: after).map Shape.name := by
    rw [List.map_append, List.map_append, List.map_cons, List.map_cons, hname]
  constructor
  · rw [hsame]
    exact h.distinct
  · intro name
    rw [hsame, h.names, List.map_append, List.mem_append]
    refine (or_iff_left_of_imp fun hmem => ?_).symm
    obtain rfl : name = t.value.name := by simpa using hmem
    -- the name of the type is that of a shape that is there
    rw [ht, ← h.names]
    exact List.mem_map_of_mem (List.mem_append_right _ List.mem_cons_self)
  · exact forall_named_replace h.distinct h.each ht hname hfound

/-- A type of a new name gets a shape of its own. -/
theorem append {shapes : List Shape} {s : Shape} {t : Sourced TypeDef} (h : ComposedAll P ns shapes)
    (hnew : ∀ n ∈ shapes, n.name ≠ t.value.name) (hname : s.name = t.value.name)
    (hs : Composed P [t] s) : ComposedAll P (ns ++ [t]) (shapes ++ [s]) := by
  have hfresh : t.value.name ∉ shapes.map Shape.name := by
    intro hmem
    obtain ⟨n, hn, heq⟩ := List.mem_map.1 hmem
    exact hnew n hn heq
  constructor
  · rw [List.map_append, List.map_singleton, hname]
    exact h.distinct.append (List.nodup_singleton _) (by simpa using hfresh)
  · intro name
    rw [List.map_append, List.map_append, List.mem_append, List.mem_append, h.names, List.map_singleton,
      List.map_singleton, hname]
  · refine forall_named_append h.each hnew (fun u hu heq => hfresh ((h.names _).2 ?_)) hname hs
    exact heq ▸ List.mem_map_of_mem hu

end ComposedAll

theorem TakesParts.composed_ofType (hP : TakesParts l P) (source : Nat) (t : TypeDef) :
    Composed P [] (ofType source t) :=
  composed_iff.2 ⟨hP.start source t, .nil⟩

mutual

theorem absorb_composes (hP : TakesParts l P) (t : TypeDef)
    (ht : ∀ u ∈ t.within, l.set.Declares ⟨source, u⟩) {ts : List (Sourced TypeDef)} {s : Shape}
    (h : Composed P ts s) :
    Yields (absorb l source s t) fun s' _ =>
      s'.name = s.name ∧ Composed P (ts ++ [⟨source, t⟩]) s' := by
  rcases t with ⟨token, namespaceName, name, flags, base, interfaces, genericParams, fields, methods,
    properties, events, nested, attributes⟩
  obtain ⟨ht, htypes⟩ := TypeDef.forall_within_iff.1 ht
  obtain ⟨hown, hall⟩ := composed_iff.1 h
  rw [absorb]
  refine (hP.parts ht hown).bind ?_
  rintro s₁ _ ⟨hname, hnested, hown₁⟩
  rw [hnested]
  refine (absorbNested_composes hP nested htypes hall).bind ?_
  rintro inner _ hinner
  refine Yields.pure ⟨hname, composed_iff.2 ⟨hP.frame hown₁ s₁.name s₁.flags inner, ?_⟩⟩
  rw [nestedOf_append_singleton]
  exact hinner

theorem absorbNested_composes (hP : TakesParts l P) (ts : List TypeDef)
    (hts : ∀ t ∈ ts, ∀ u ∈ t.within, l.set.Declares ⟨source, u⟩) {ns : List (Sourced TypeDef)}
    {shapes : List Shape} (h : ComposedAll P ns shapes) :
    Yields (absorbNested l source shapes ts) fun shapes' _ =>
      ComposedAll P (ns ++ ts.map (Sourced.mk source)) shapes' := by
  cases ts with
  | nil =>
    refine Yields.pure ?_
    rw [List.map_nil, List.append_nil]
    exact h
  | cons t ts =>
    obtain ⟨ht, hts⟩ := List.forall_mem_cons.1 hts
    have hmiddle : ns ++ (t :: ts).map (Sourced.mk source) =
        ns ++ [⟨source, t⟩] ++ ts.map (Sourced.mk source) := by
      rw [List.map_cons, List.append_assoc]
      rfl
    rw [absorbNested, hmiddle]
    split
    case h_1 found index hfind =>
      obtain ⟨before, after, rfl, hname, hset⟩ := eq_append_of_find? hfind
      refine (Yields.redirect _ _).bind fun _ _ _ => ?_
      have hmem : found ∈ before ++ found :: after := List.mem_append_right _ List.mem_cons_self
      refine (absorb_composes hP t ht (h.each found hmem)).bind ?_
      rintro found' _ ⟨hsame, hfound'⟩
      refine (absorbNested_composes hP ts hts ?_).mono fun _ _ hrest => hrest
      rw [hset]
      exact h.replace hname.symm hsame hfound'
    case h_2 hfind =>
      have hnew := forall_ne_of_find? hfind
      refine (absorb_composes hP t ht (hP.composed_ofType source t)).bind ?_
      rintro s _ ⟨hsame, hs⟩
      exact (absorbNested_composes hP ts hts (h.append hnew hsame hs)).mono fun _ _ hrest => hrest

end

/-- What is nested in a composed shape is composed of some types too. -/
theorem Composed.within {s : Shape} (h : Composed P ts s) : ∀ u ∈ s.within, ∃ ts', P ts' u := by
  induction h with
  | @mk ts s own _ _ _ ih =>
    rw [within_eq, List.forall_mem_cons, List.forall_mem_flatMap]
    exact ⟨⟨ts, own⟩, ih⟩

end Composed

/-! ## Members -/

/-- A shape has the keys of the members of some types, and each of its own members under its key. -/
structure Gathers (l : Linkage) (ts : List (Sourced TypeDef)) (s : Shape) : Prop where
  filed : (s.members.map Prod.fst).Perm (s.parts.map fun x => x.value.key (l.names x.source))
  nodup : (s.members.map Prod.fst).Nodup
  keys : ∀ k, k ∈ s.members.map Prod.fst ↔
    ∃ t ∈ ts, k ∈ t.value.members.map (Member.key (l.names t.source))

/-- A shape has gathered some types, and its nested shapes the types nested in these. -/
inductive Gathered (l : Linkage) : List (Sourced TypeDef) → Shape → Prop
  | mk {ts : List (Sourced TypeDef)} {s : Shape} (parts : Gathers l ts s)
      (distinct : (s.nested.map Shape.name).Nodup)
      (names : ∀ name, name ∈ s.nested.map Shape.name ↔
        name ∈ (nestedOf ts).map fun t => t.value.name)
      (nested : ∀ n ∈ s.nested, Gathered l (named n.name (nestedOf ts)) n) : Gathered l ts s

theorem gathered_iff_composed {s : Shape} : Gathered l ts s ↔ Composed (Gathers l) ts s := by
  constructor
  · intro h
    induction h with
    | mk parts distinct names _ ih => exact .mk parts distinct names ih
  · intro h
    induction h with
    | mk own distinct names _ ih => exact .mk own distinct names ih

theorem takeParts_gathers (hset : l.set.WellNumbered) {t : TypeDef} (ht : l.set.Declares ⟨source, t⟩)
    {s : Shape} (h : Gathers l ts s) :
    Yields (takeParts l source t s) fun s' _ =>
      s'.name = s.name ∧ s'.nested = s.nested ∧ Gathers l (ts ++ [⟨source, t⟩]) s' := by
  unfold takeParts
  dsimp only
  rw [TypeDef.memberKeys_eq]
  refine (takeMembers_firsts hset ht (fun _ hx => hx) s).bind ?_
  rintro s₁ _ ⟨hsame, hparts, hfiled⟩
  obtain ⟨seen, heq⟩ := takeInterfaces_eq source (l.names source) t.interfaces s₁
  rw [heq]
  refine (takeAttributes_yields l source t.attributes _).mono ?_
  rintro _ _ ⟨⟨kept, rfl⟩, -⟩
  refine ⟨hsame.name, hsame.nested, ?_⟩
  obtain ⟨hnodup, hnew⟩ := nodup_map_firsts (Member.key (l.names source)) (s.members.map Prod.fst)
    t.members
  constructor
  · change (s₁.members.map Prod.fst).Perm (s₁.parts.map _)
    rw [hfiled]
    refine .trans ?_ (hparts.map _).symm
    rw [List.map_append, List.map_map]
    exact h.filed.append_right _
  · change (s₁.members.map Prod.fst).Nodup
    rw [hfiled]
    refine h.nodup.append hnodup fun k hold hmem => ?_
    obtain ⟨x, hx, rfl⟩ := List.mem_map.1 hmem
    exact hnew x hx hold
  · intro k
    change k ∈ s₁.members.map Prod.fst ↔ _
    rw [hfiled, List.mem_append, h.keys]
    simp only [List.mem_append, List.mem_singleton, or_and_right, exists_or, exists_eq_left]
    -- a key of the type is either there already or that of a member that is taken
    constructor
    · rintro (hold | hmem)
      · exact .inl hold
      · exact .inr (((firsts_sublist _ _ _).map _).subset hmem)
    · rintro (hold | hmem)
      · exact .inl hold
      · by_cases hseen : k ∈ s.members.map Prod.fst
        · exact .inl ((h.keys k).1 hseen)
        · obtain ⟨x, hx, rfl⟩ := List.mem_map.1 hmem
          obtain ⟨y, hy, hkey⟩ := exists_mem_firsts hx hseen
          exact .inr (hkey ▸ List.mem_map_of_mem hy)

theorem takesParts_gathers (hset : l.set.WellNumbered) : TakesParts l (Gathers l) := by
  constructor
  · intro source t
    refine ⟨.refl _, List.nodup_nil, ?_⟩
    intro k
    exact iff_of_false List.not_mem_nil (fun ⟨_, h, _⟩ => List.not_mem_nil h)
  · intro source t ht ts s h
    exact takeParts_gathers hset ht h
  · intro ts s h name flags nested
    exact ⟨h.filed, h.nodup, h.keys⟩

/-! ## The shapes of a merge -/

variable {plan : Plan}

/-- The types among some declarations that go into the type of the output that starts at a place. -/
def contributors (plan : Plan) (ds : List Declaration) (origin : Origin) : List (Sourced TypeDef) :=
  (ds.filter fun d => decide (plan.GoesInto d origin)).map fun d => ⟨d.origin.module, d.type⟩

theorem mem_contributors {ds : List Declaration} {origin : Origin} {t : Sourced TypeDef} :
    t ∈ contributors plan ds origin ↔
      ∃ d ∈ ds, plan.GoesInto d origin ∧ ⟨d.origin.module, d.type⟩ = t := by
  simp [contributors, and_assoc]

theorem contributors_append_of {ds : List Declaration} {d : Declaration} {origin : Origin}
    (h : plan.GoesInto d origin) :
    contributors plan (ds ++ [d]) origin =
      contributors plan ds origin ++ [⟨d.origin.module, d.type⟩] := by
  simp [contributors, List.filter_append, h]

theorem contributors_append_of_not {ds : List Declaration} {d : Declaration} {origin : Origin}
    (h : ¬ plan.GoesInto d origin) :
    contributors plan (ds ++ [d]) origin = contributors plan ds origin := by
  simp [contributors, List.filter_append, h]

/-- A property of shapes and of the types that have gone into them that goes on to hold when one more
declaration goes into a shape. -/
structure Accumulates (l : Linkage) (P : List (Sourced TypeDef) → Shape → Prop) : Prop where
  start : ∀ source t, P [] (ofType source t)
  rename : ∀ {ts s}, P ts s → ∀ name flags, P ts { s with name, flags }
  absorb : ∀ d ∈ l.set.declarations, ∀ {ts s}, P ts s →
    Yields (absorb l d.origin.module s d.type) fun s' _ => P (ts ++ [⟨d.origin.module, d.type⟩]) s'

/-- The shapes made so far have the property of the declarations that are done with, and none of these
went into a type that is not there yet. -/
structure Accumulated (P : List (Sourced TypeDef) → Shape → Prop) (plan : Plan) (done : List Declaration)
    (shapes : PlacedShapes) : Prop where
  each : ∀ p ∈ shapes, P (contributors plan done p.1) p.2
  origins : shapes.map Prod.fst ⊆ done.map Declaration.origin
  targets : ∀ e ∈ done, ∀ target, plan.placement? e.origin = some (.into target) →
    target ∈ shapes.map Prod.fst

namespace Accumulated

variable {P : List (Sourced TypeDef) → Shape → Prop} {done : List Declaration} {d : Declaration}
  {shapes : PlacedShapes}

theorem emit (h : Accumulated P plan done shapes) (hnew : d.origin ∉ done.map Declaration.origin)
    {name : String} {hide : Bool} (hplace : plan.placement? d.origin = some (.emit name hide)) {s : Shape}
    (hs : P [⟨d.origin.module, d.type⟩] s) :
    Accumulated P plan (done ++ [d]) (shapes ++ [(d.origin, s)]) := by
  have hshapes : d.origin ∉ shapes.map Prod.fst := fun hmem => hnew (h.origins hmem)
  constructor
  · intro p hp
    rcases List.mem_append.1 hp with hold | hlast
    · -- the new type is no part of those that are there
      have hnot : ¬ plan.GoesInto d p.1 := by
        rw [Plan.GoesInto, hplace]
        rintro (heq | hinto)
        · exact hshapes (heq ▸ List.mem_map_of_mem hold)
        · exact nomatch hinto
      rw [contributors_append_of_not hnot]
      exact h.each p hold
    · obtain rfl := List.mem_singleton.1 hlast
      -- and nothing has gone into it yet
      have hnone : contributors plan done d.origin = [] := by
        rw [contributors, List.map_eq_nil_iff, List.filter_eq_nil_iff]
        intro e he hdecide
        rcases of_decide_eq_true hdecide with heq | hinto
        · exact hnew (heq ▸ List.mem_map_of_mem he)
        · exact hshapes (h.targets e he d.origin hinto)
      rw [contributors_append_of (.inl rfl), hnone]
      exact hs
  · rw [List.map_append, List.map_append]
    exact List.append_subset.2 ⟨List.subset_append_of_subset_left _ h.origins, List.subset_append_right _ _⟩
  · intro e he target hinto
    rw [List.map_append]
    rcases List.mem_append.1 he with hmem | hlast
    · exact List.mem_append_left _ (h.targets e hmem target hinto)
    · obtain rfl := List.mem_singleton.1 hlast
      exact nomatch hplace.symm.trans hinto

theorem into (h : Accumulated P plan done shapes) (hnew : d.origin ∉ done.map Declaration.origin)
    {target : Origin} (hplace : plan.placement? d.origin = some (.into target))
    (htarget : target ∈ shapes.map Prod.fst) {s' : Shape}
    (hs' : P (contributors plan done target ++ [⟨d.origin.module, d.type⟩]) s') :
    Accumulated P plan (done ++ [d]) (update target s' shapes) := by
  have horigins : (update target s' shapes).map Prod.fst = shapes.map Prod.fst := by
    rw [update, List.map_map]
    rfl
  constructor
  · intro p hp
    obtain ⟨⟨origin, s⟩, hs, rfl⟩ := List.mem_map.1 hp
    dsimp only
    by_cases heq : origin = target
    · rw [if_pos heq, heq, contributors_append_of (.inr hplace)]
      exact hs'
    · have hnot : ¬ (d.origin = origin ∨ plan.placement? d.origin = some (.into origin)) := by
        rw [hplace]
        rintro (hsame | hinto)
        · exact hnew (h.origins (hsame ▸ List.mem_map_of_mem hs))
        · exact heq (Placement.into.inj (Option.some.inj hinto)).symm
      rw [if_neg heq, contributors_append_of_not hnot]
      exact h.each _ hs
  · rw [horigins, List.map_append]
    exact List.subset_append_of_subset_left _ h.origins
  · intro e he other hinto
    rw [horigins]
    rcases List.mem_append.1 he with hmem | hlast
    · exact h.targets e hmem other hinto
    · obtain rfl := List.mem_singleton.1 hlast
      obtain rfl := Placement.into.inj (Option.some.inj (hplace.symm.trans hinto))
      exact htarget

end Accumulated

theorem placeDeclaration_accumulates {P : List (Sourced TypeDef) → Shape → Prop} (hP : Accumulates l P)
    {done : List Declaration} {d : Declaration} (hnodup : ((done ++ [d]).map Declaration.origin).Nodup)
    (hd : d ∈ l.set.declarations) {shapes : PlacedShapes} (h : Accumulated P plan done shapes) :
    Settles (placeDeclaration l plan shapes d) fun shapes' _ => Accumulated P plan (done ++ [d]) shapes' := by
  have hnew : d.origin ∉ done.map Declaration.origin := by
    rw [List.map_append, List.nodup_append] at hnodup
    exact fun hmem => hnodup.2.2 d.origin hmem d.origin (List.mem_singleton_self _) rfl
  unfold placeDeclaration
  dsimp only
  split
  case h_1 => exact Settles.throw _
  case h_2 name hide hplace =>
    refine (Settles.lift (hP.absorb d hd (hP.start _ d.type))).bind ?_
    exact fun s _ hs => Settles.pure (h.emit hnew hplace (hP.rename hs name _))
  case h_3 target hplace =>
    split
    case h_1 => exact Settles.throw _
    case h_2 s hlookup =>
      obtain ⟨before, after, hmiddle, -⟩ := List.lookup_eq_some_iff.1 hlookup
      have hs : (target, s) ∈ shapes := by simp [hmiddle]
      refine (Settles.lift (Yields.redirect _ _)).bind fun _ _ _ => ?_
      refine (Settles.lift (hP.absorb d hd (h.each _ hs))).bind ?_
      exact fun s' _ hs' => Settles.pure (h.into hnew hplace (List.mem_map_of_mem hs) hs')

/-- When all declarations have been placed, each shape has the property of all types that go into it. -/
theorem placeDeclarations_accumulate {P : List (Sourced TypeDef) → Shape → Prop} (hP : Accumulates l P)
    (plan : Plan) : Settles (l.set.declarations.foldlM (placeDeclaration l plan) []) fun placed _ =>
      Accumulated P plan l.set.declarations placed := by
  refine Settles.foldlM (motive := fun done shapes _ => Accumulated P plan done shapes)
    ⟨nofun, List.Subset.refl _, nofun⟩ ?_
  rintro done d rest hdone shapes rs h
  have hnodup : ((done ++ [d]).map Declaration.origin).Nodup := by
    refine l.set.nodup_origins.sublist (List.Sublist.map _ ?_)
    rw [← hdone]
    exact (List.singleton_sublist.2 List.mem_cons_self).append_left done
  exact placeDeclaration_accumulates hP hnodup (by simp [← hdone]) h

theorem composed_accumulates {P : List (Sourced TypeDef) → Shape → Prop} (hP : TakesParts l P) :
    Accumulates l (Composed P) := by
  constructor
  · exact hP.composed_ofType
  · intro ts s h name flags
    obtain ⟨hown, hall⟩ := composed_iff.1 h
    exact composed_iff.2 ⟨hP.frame hown name flags s.nested, hall⟩
  · intro d hd ts s h
    have htypes : ∀ u ∈ d.type.within, l.set.Declares ⟨d.origin.module, u⟩ :=
      fun u hu => ModuleSet.declares_of_mem_declarations hd hu
    exact (absorb_composes hP d.type htypes h).mono fun _ _ hs' => hs'.2

theorem gathered_accumulates (hset : l.set.WellNumbered) : Accumulates l (Gathered l) := by
  have hcomposed : Gathered l = Composed (Gathers l) := by
    funext ts s
    exact propext gathered_iff_composed
  rw [hcomposed]
  exact composed_accumulates (takesParts_gathers hset)

/-- In the end each shape has gathered all types that go into it. -/
theorem buildAll_gathers (hset : l.set.WellNumbered) (plan : Plan) :
    Settles (buildAll l plan) fun shapes _ => ∃ placed : PlacedShapes, shapes = placed.map Prod.snd ∧
      placed.map Prod.fst = (l.set.emitted plan).map Declaration.origin ∧
      ∀ p ∈ placed, Gathered l (contributors plan l.set.declarations p.1) p.2 := by
  have hkeeps := buildAll_keeps hset plan (P := Accumulated (Gathered l) plan)
    ⟨nofun, List.Subset.refl _, nofun⟩
    fun hnodup hd _ h => placeDeclaration_accumulates (gathered_accumulates hset) hnodup hd h
  refine hkeeps.mono ?_
  rintro _ _ ⟨placed, rfl, hbuilt, h⟩
  exact ⟨placed, rfl, hbuilt.origins, h.each⟩

end Shape

end ModuleLinker
