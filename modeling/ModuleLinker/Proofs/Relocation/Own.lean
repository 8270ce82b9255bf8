import ModuleLinker.Proofs.AttributeChoice
import ModuleLinker.Proofs.Relocation.Apart

namespace ModuleLinker

/-! # Types with shapes of their own

Where nothing becomes part of a type, its shape can be told from the type alone: of the members with one
key, of the interfaces with one name and of the attributes that cannot stand beside each other the first
one stays, and the same holds of the types nested in it.
-/

namespace Shape

open Shaping

variable {l : Linkage} {source : Nat}

/-- What an attribute is compared by. -/
def attributeContent (l : Linkage) (a : Sourced Attribute) :
    String × List AttributeValue × List NamedArgument :=
  NamedAttribute.content ⟨(l.names a.source).name a.value.type, a.value⟩

/-- The attributes that can stand beside those before them. -/
def ownAttributes (l : Linkage) (source : Nat) (attributes : List Attribute) : List (Sourced Attribute) :=
  accept (NamedAttribute.standsBeside (NamedAttribute.repeats l.set l.policy)) (attributeContent l)
    (attributes.map (Sourced.mk source))

/-- The first members with each key. -/
def ownMembers (names : NameTable) (kind : α → Member) (xs : List α) : List α :=
  firsts (fun x => (kind x).key names) [] xs

/-- The shape of a type that has taken in its parts and nothing else. -/
def ownParts (l : Linkage) (source : Nat) (t : TypeDef) : Shape :=
  let names := l.names source
  { ofType source t with
    fields := (ownMembers names .field t.fields).map (Sourced.mk source)
    methods := (ownMembers names .method t.methods).map (Sourced.mk source)
    properties := (ownMembers names .property t.properties).map (Sourced.mk source)
    events := (ownMembers names .event t.events).map (Sourced.mk source)
    interfaces := (firsts names.name [] t.interfaces).map (Sourced.mk source)
    attributes := ownAttributes l source t.attributes
    members := (ownMembers names id t.members).map fun x => (x.key names, ⟨source, x.token⟩)
    interfaceNames := ((firsts names.name [] t.interfaces).map names.name).reverse }

mutual

/-- The shape of a type that nothing else becomes part of. -/
def own (l : Linkage) (source : Nat) : TypeDef → Shape
  | t@⟨_, _, _, _, _, _, _, _, _, _, _, nested, _⟩ =>
    { ownParts l source t with nested := ownAll l source nested }

/-- The shapes of types that nothing else becomes part of. -/
def ownAll (l : Linkage) (source : Nat) : List TypeDef → List Shape
  | [] => []
  | t :: rest => own l source t :: ownAll l source rest

end

theorem ownAll_eq (l : Linkage) (source : Nat) (ts : List TypeDef) :
    ownAll l source ts = ts.map (own l source) := by
  induction ts with
  | nil => rfl
  | cons t ts ih => rw [ownAll, ih, List.map_cons]

theorem own_eq (l : Linkage) (source : Nat) (t : TypeDef) :
    own l source t = { ownParts l source t with nested := t.nested.map (own l source) } := by
  cases t
  rw [own, ownAll_eq]

theorem name_own (l : Linkage) (source : Nat) (t : TypeDef) : (own l source t).name = t.name := by
  rw [own_eq]
  rfl

/-- Attributes are chosen before they are told where they come from. -/
theorem ownAttributes_eq (l : Linkage) (source : Nat) (attributes : List Attribute) :
    ownAttributes l source attributes =
      (accept (NamedAttribute.standsBeside (NamedAttribute.repeats l.set l.policy))
        (fun a => attributeContent l ⟨source, a⟩) attributes).map (Sourced.mk source) :=
  accept_map fun _ _ => rfl

/-! ## The same names elsewhere -/

variable {l' : Linkage}

/-- Parts depend on the names of types and on which attributes are repeatable, and on nothing else. -/
theorem ownParts_congr (hnames : l'.names source = l.names source)
    (hrepeats : NamedAttribute.repeats l'.set l'.policy = NamedAttribute.repeats l.set l.policy)
    (t : TypeDef) : ownParts l' source t = ownParts l source t := by
  have hcontent : (fun a => attributeContent l' ⟨source, a⟩) = fun a => attributeContent l ⟨source, a⟩ := by
    funext a
    dsimp only [attributeContent]
    rw [hnames]
  have hattributes : ownAttributes l' source t.attributes = ownAttributes l source t.attributes := by
    rw [ownAttributes_eq, ownAttributes_eq, hrepeats, hcontent]
  unfold ownParts
  rw [hnames, hattributes]

mutual

theorem own_congr (hnames : l'.names source = l.names source)
    (hrepeats : NamedAttribute.repeats l'.set l'.policy = NamedAttribute.repeats l.set l.policy)
    (t : TypeDef) : own l' source t = own l source t := by
  rcases t with ⟨token, namespaceName, name, flags, base, interfaces, genericParams, fields, methods,
    properties, events, nested, attributes⟩
  rw [own, own, ownParts_congr hnames hrepeats, ownAll_congr hnames hrepeats nested]

theorem ownAll_congr (hnames : l'.names source = l.names source)
    (hrepeats : NamedAttribute.repeats l'.set l'.policy = NamedAttribute.repeats l.set l.policy)
    (ts : List TypeDef) : ownAll l' source ts = ownAll l source ts := by
  cases ts with
  | nil => rfl
  | cons t ts => rw [ownAll, ownAll, own_congr hnames hrepeats t, ownAll_congr hnames hrepeats ts]

end

/-! ## The members of a type by their kinds -/

/-- Members of different kinds have different keys. -/
theorem firsts_behind (names : NameTable) (kind : α → Member) (seen : List Member) (xs : List α)
    (h : ∀ x ∈ xs, ∀ y ∈ seen, y.table ≠ (kind x).table) :
    firsts (Member.key names) (seen.map (Member.key names)) (xs.map kind) =
      (ownMembers names kind xs).map kind := by
  have hnew : ∀ y ∈ xs.map kind, y.key names ∉ seen.map (Member.key names) := by
    intro y hy hmem
    obtain ⟨x, hx, rfl⟩ := List.mem_map.1 hy
    obtain ⟨z, hz, hkey⟩ := List.mem_map.1 hmem
    exact h x hx z hz (Member.table_eq_of_key_eq hkey)
  have hfirsts := firsts_of_forall_not_mem hnew []
  rw [List.append_nil] at hfirsts
  rw [hfirsts, ← map_firsts]
  rfl

/-- The first members with each key, one kind after another. -/
theorem ownMembers_members (names : NameTable) (t : TypeDef) :
    ownMembers names id t.members =
      (ownMembers names .field t.fields).map .field ++
        (ownMembers names .method t.methods).map .method ++
        (ownMembers names .property t.properties).map .property ++
        (ownMembers names .event t.events).map .event := by
  have hfields := firsts_behind names .field [] t.fields fun _ _ _ hy => absurd hy List.not_mem_nil
  have hmethods := firsts_behind names .method (t.fields.map .field) t.methods
    (by simp [Member.table, Table.field, Table.method])
  have hproperties := firsts_behind names .property (t.fields.map .field ++ t.methods.map .method) t.properties
    (by simp [Member.table, Table.field, Table.method, Table.property, or_imp, forall_and])
  have hevents := firsts_behind names .event
    (t.fields.map .field ++ t.methods.map .method ++ t.properties.map .property) t.events
    (by simp [Member.table, Table.field, Table.method, Table.property, Table.event, or_imp, forall_and])
  have hid : ownMembers names id t.members = firsts (Member.key names) [] t.members := rfl
  rw [hid, TypeDef.members, firsts_append, firsts_append, firsts_append, List.nil_append, List.nil_append,
    List.nil_append, ← hfields, ← hmethods, ← hproperties, ← hevents]
  rfl

/-- Filing members one after another adds to each list the members of its kind. -/
theorem foldl_keep (xs : List Member) (s : Shape) :
    xs.foldl (fun s x => s.keep l ⟨source, x⟩) s =
      { s with
        fields := s.fields ++ xs.filterMap fun | .field x => some ⟨source, x⟩ | _ => none
        methods := s.methods ++ xs.filterMap fun | .method x => some ⟨source, x⟩ | _ => none
        properties := s.properties ++ xs.filterMap fun | .property x => some ⟨source, x⟩ | _ => none
        events := s.events ++ xs.filterMap fun | .event x => some ⟨source, x⟩ | _ => none
        members := s.members ++ xs.map fun x => (x.key (l.names source), ⟨source, x.token⟩) } := by
  induction xs generalizing s with
  | nil =>
    cases s
    simp
  | cons x xs ih =>
    rw [List.foldl_cons, ih]
    cases x <;> simp [keep, add, partKey]

/-! ## Taking in the parts of a type -/

/-- Of several members those are filed and added, one after another, whose keys are new. -/
theorem takeMembers_keep (hset : l.set.WellNumbered) {t : TypeDef} (ht : l.set.Declares ⟨source, t⟩)
    {xs : List Member} (hxs : ∀ x ∈ xs, x ∈ t.members) (s : Shape) :
    Yields ((xs.map fun x => (x.key (l.names source), x.token)).foldlM (takeMember source t) s)
      fun s' _ => s' = (firsts (Member.key (l.names source)) (s.members.map Prod.fst) xs).foldl
        (fun s x => s.keep l ⟨source, x⟩) s := by
  induction xs generalizing s with
  | nil => exact Yields.pure rfl
  | cons x xs ih =>
    obtain ⟨hx, hrest⟩ := List.forall_mem_cons.1 hxs
    rw [List.map_cons, List.foldlM_cons, takeMember_eq hset ht hx, firsts]
    rcases hlookup : s.members.lookup (x.key (l.names source)) with _ | kept
    · have hnew : x.key (l.names source) ∉ s.members.map Prod.fst := by
        intro hmem
        obtain ⟨entry, hentry, heq⟩ := List.mem_map.1 hmem
        have hne := List.lookup_eq_none_iff.1 hlookup entry hentry
        simp [heq] at hne
      have hmembers : (s.keep l ⟨source, x⟩).members.map Prod.fst =
          s.members.map Prod.fst ++ [x.key (l.names source)] := List.map_append
      have htail := ih hrest (s.keep l ⟨source, x⟩)
      rw [hmembers] at htail
      rw [if_neg hnew]
      exact htail
    · have hold : x.key (l.names source) ∈ s.members.map Prod.fst := by
        obtain ⟨before, after, hmembers, -⟩ := List.lookup_eq_some_iff.1 hlookup
        simp [hmembers]
      rw [if_pos hold, bind_assoc]
      exact (Yields.redirect ⟨source, x.token⟩ kept).bind fun _ _ _ => ih hrest s

/-- An attribute is taken if it is not dropped and can stand beside those that are there. -/
theorem takeAttribute_chooses (s : Shape) (a : Attribute) : (takeAttribute l source s a).Answers (· =
    if l.policy.drops ((l.names source).name a.type) then s
    else if NamedAttribute.standsBeside (NamedAttribute.repeats l.set l.policy)
      (s.attributes.map (attributeContent l)) (attributeContent l ⟨source, a⟩)
    then { s with attributes := s.attributes ++ [⟨source, a⟩] } else s) := by
  have hseen : (namedAttributes l s).map NamedAttribute.content = s.attributes.map (attributeContent l) :=
    List.map_map
  unfold takeAttribute
  dsimp only
  split
  case isTrue => exact .bind fun _ => .pure rfl
  case isFalse =>
    refine .seq (NamedAttribute.offer_answers _ _) ?_
    rintro _ rfl
    rw [hseen, attributeContent]
    split
    · exact .pure rfl
    · exact .pure rfl

/-- Where nothing is dropped, an attribute is taken if it can stand beside those that are there. -/
theorem takeAttribute_eq (hdrops : ∀ name, l.policy.drops name = false) (s : Shape) (a : Attribute) :
    (takeAttribute l source s a).Answers (· =
      if NamedAttribute.standsBeside (NamedAttribute.repeats l.set l.policy)
        (s.attributes.map (attributeContent l)) (attributeContent l ⟨source, a⟩)
      then { s with attributes := s.attributes ++ [⟨source, a⟩] } else s) := by
  intro log
  have hkeep : ¬ l.policy.drops ((l.names source).name a.type) = true := by
    rw [hdrops]
    exact Bool.false_ne_true
  rw [takeAttribute_chooses s a log, if_neg hkeep]

theorem takeAttributes_own (hdrops : ∀ name, l.policy.drops name = false) (as : List Attribute) {s : Shape}
    (hs : s.attributes = []) :
    Yields (as.foldlM (fun s a => liftM (takeAttribute l source s a)) s)
      fun s' _ => s' = { s with attributes := ownAttributes l source as } := by
  refine Yields.foldlM (motive := fun done s' _ =>
    s' = { s with attributes := ownAttributes l source done }) ?_ ?_
  · cases s
    exact congrArg (Shape.mk _ _ _ _ _ _ _ _ _ · _ _ _) hs
  · rintro done a - _ new rfl
    refine (Yields.lift (takeAttribute_eq hdrops _ a)).mono ?_
    rintro _ _ ⟨rfl, -⟩
    rw [ownAttributes, ownAttributes, List.map_append, List.map_singleton, accept_append_singleton]
    split
    · rfl
    · rfl

theorem takeParts_own (hset : l.set.WellNumbered) (hdrops : ∀ name, l.policy.drops name = false)
    {t : TypeDef} (ht : l.set.Declares ⟨source, t⟩) :
    Yields (takeParts l source t (ofType source t)) fun s _ => s = ownParts l source t := by
  have hmembers : (firsts (Member.key (l.names source)) ((ofType source t).members.map Prod.fst)
      t.members).foldl (fun s x => s.keep l ⟨source, x⟩) (ofType source t) =
      { ofType source t with
        fields := (ownMembers (l.names source) .field t.fields).map (Sourced.mk source)
        methods := (ownMembers (l.names source) .method t.methods).map (Sourced.mk source)
        properties := (ownMembers (l.names source) .property t.properties).map (Sourced.mk source)
        events := (ownMembers (l.names source) .event t.events).map (Sourced.mk source)
        members := (ownMembers (l.names source) id t.members).map
          fun x => (x.key (l.names source), ⟨source, x.token⟩) } := by
    have hfirsts : firsts (Member.key (l.names source)) ((ofType source t).members.map Prod.fst) t.members =
        ownMembers (l.names source) id t.members := rfl
    rw [hfirsts, foldl_keep, ownMembers_members]
    simp [ofType, List.filterMap_append, List.filterMap_map, Function.comp_def]
  unfold takeParts
  dsimp only
  rw [TypeDef.memberKeys_eq]
  refine (takeMembers_keep hset ht (fun _ h => h) (ofType source t)).bind ?_
  rintro _ _ rfl
  rw [hmembers, foldl_takeInterface]
  refine (takeAttributes_own hdrops t.attributes ?_).mono ?_
  · rfl
  · rintro _ _ rfl
    simp [ownParts, ofType]

mutual

/-- A type that is taken into a shape of its own gives its own shape. -/
theorem absorb_own (hset : l.set.WellNumbered) (hdrops : ∀ name, l.policy.drops name = false) (t : TypeDef)
    (ht : ∀ u ∈ t.within, l.set.Declares ⟨source, u⟩) (hnames : t.NamesApart) :
    Yields (absorb l source (ofType source t) t) fun s _ => s = own l source t := by
  rcases t with ⟨token, namespaceName, name, flags, base, interfaces, genericParams, fields, methods,
    properties, events, nested, attributes⟩
  unfold TypeDef.NamesApart at hnames
  rw [TypeDef.within_eq, List.forall_mem_cons] at ht hnames
  rw [absorb]
  refine (takeParts_own hset hdrops ht.1).bind ?_
  rintro _ _ rfl
  have htypes : ∀ t ∈ nested, ∀ u ∈ t.within, l.set.Declares ⟨source, u⟩ :=
    fun t ht' u hu => ht.2 u (List.mem_flatMap.2 ⟨t, ht', hu⟩)
  have hinner : ∀ t ∈ nested, t.NamesApart :=
    fun t ht' u hu => hnames.2 u (List.mem_flatMap.2 ⟨t, ht', hu⟩)
  have hnew : ∀ t ∈ nested, ∀ s ∈ ([] : List Shape), s.name ≠ t.name :=
    fun _ _ _ hmem => absurd hmem List.not_mem_nil
  refine (absorbNested_own hset hdrops nested htypes hinner hnames.1 hnew).bind ?_
  rintro _ _ rfl
  refine Yields.pure ?_
  rw [own, ownAll_eq]
  rfl

/-- Nested types of new names get shapes of their own behind those that are there. -/
theorem absorbNested_own (hset : l.set.WellNumbered) (hdrops : ∀ name, l.policy.drops name = false)
    (ts : List TypeDef) (hts : ∀ t ∈ ts, ∀ u ∈ t.within, l.set.Declares ⟨source, u⟩)
    (hnames : ∀ t ∈ ts, t.NamesApart) (hnodup : (ts.map TypeDef.name).Nodup) {shapes : List Shape}
    (hnew : ∀ t ∈ ts, ∀ s ∈ shapes, s.name ≠ t.name) :
    Yields (absorbNested l source shapes ts) fun shapes' _ =>
      shapes' = shapes ++ ts.map (own l source) := by
  cases ts with
  | nil => exact Yields.pure (List.append_nil shapes).symm
  | cons t ts =>
    obtain ⟨ht, hrest⟩ := List.forall_mem_cons.1 hts
    obtain ⟨hname, hnamesRest⟩ := List.forall_mem_cons.1 hnames
    obtain ⟨hfresh, hfreshRest⟩ := List.forall_mem_cons.1 hnew
    rw [List.map_cons, List.nodup_cons] at hnodup
    rw [absorbNested]
    split
    case h_1 found index hfind =>
      -- no shape has the name of the type
      have hmem := List.fst_mem_of_mem_zipIdx (List.mem_of_find?_eq_some hfind)
      have hsame := List.find?_some hfind
      exact absurd (by simpa using hsame) (hfresh found hmem)
    case h_2 =>
      refine (absorb_own hset hdrops t ht hname).bind ?_
      rintro _ _ rfl
      have hboth : ∀ u ∈ ts, ∀ v ∈ shapes ++ [own l source t], v.name ≠ u.name := by
        intro u hu v hv
        rcases List.mem_append.1 hv with hold | hlast
        · exact hfreshRest u hu v hold
        · rw [List.mem_singleton.1 hlast, name_own]
          intro heq
          exact hnodup.1 (heq ▸ List.mem_map_of_mem hu)
      refine (absorbNested_own hset hdrops ts hrest hnamesRest hnodup.2 hboth).mono ?_
      rintro _ _ rfl
      rw [List.map_cons, List.append_assoc, List.singleton_append]

end

/-! ## All types -/

variable {plan : Plan}

/-- A type that stays as it is declared gets its own shape. -/
theorem placeDeclaration_own (hset : l.set.WellNumbered) (hdrops : ∀ name, l.policy.drops name = false)
    {d : Declaration} (hd : d ∈ l.set.declarations)
    (hplace : plan.placement? d.origin = some (.emit d.type.name false)) (hnames : d.type.NamesApart)
    (shapes : PlacedShapes) :
    Settles (placeDeclaration l plan shapes d) fun shapes' _ =>
      shapes' = shapes ++ [(d.origin, own l d.origin.module d.type)] := by
  unfold placeDeclaration
  dsimp only
  rw [hplace]
  dsimp only
  have htypes : ∀ u ∈ d.type.within, l.set.Declares ⟨d.origin.module, u⟩ :=
    fun u hu => ModuleSet.declares_of_mem_declarations hd hu
  refine (Settles.lift (absorb_own hset hdrops d.type htypes hnames)).bind ?_
  rintro _ _ rfl
  refine Settles.pure ?_
  rw [own_eq]
  rfl

/-- The shapes of types that stay as they are declared. -/
def ownPlaced (l : Linkage) (ds : List Declaration) : PlacedShapes :=
  ds.map fun d => (d.origin, own l d.origin.module d.type)

theorem placeDeclarations_own (hset : l.set.WellNumbered) (hdrops : ∀ name, l.policy.drops name = false)
    {ds : List Declaration} (hds : ∀ d ∈ ds, d ∈ l.set.declarations ∧
      plan.placement? d.origin = some (.emit d.type.name false) ∧ d.type.NamesApart) :
    Settles (ds.foldlM (placeDeclaration l plan) []) fun shapes _ => shapes = ownPlaced l ds := by
  refine Settles.foldlM (motive := fun done shapes _ => shapes = ownPlaced l done) rfl ?_
  rintro done d rest hsplit _ new rfl
  obtain ⟨hd, hplace, hnames⟩ := hds d (hsplit ▸ List.mem_append_right done List.mem_cons_self)
  refine (placeDeclaration_own hset hdrops hd hplace hnames _).mono ?_
  rintro _ _ rfl
  rw [ownPlaced, ownPlaced, List.map_append, List.map_singleton]

end Shape

end ModuleLinker
