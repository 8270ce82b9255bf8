import ModuleLinker.Proofs.Plan.Placement
import ModuleLinker.Proofs.ReferenceChain
import ModuleLinker.Proofs.Relocation.Apart
import ModuleLinker.Proofs.Relocation.Gathering
import ModuleLinker.Proofs.Relocation.Output

namespace ModuleLinker

/-! # Fields of types that become one

When types become one, fields of one name are one field if their types have the same text, and stay
two fields otherwise. A plan compares each type with the first one of its name only, so that of three
types the second and the third may still differ in a field that the first does not have.
-/

namespace TypeDef

/-- Whether fields of one name in two types have types of the same text. -/
def FieldsAgree (names names' : NameTable) (t u : TypeDef) : Prop :=
  ∀ x ∈ t.fields, ∀ y ∈ u.fields, x.name = y.name →
    names.describe x.signature = names'.describe y.signature

instance (names names' : NameTable) (t u : TypeDef) : Decidable (FieldsAgree names names' t u) :=
  inferInstanceAs (Decidable (∀ x ∈ t.fields, ∀ y ∈ u.fields, x.name = y.name → _))

/-- Two types agree in their fields, and so do the types nested in them that have one name. -/
inductive Agrees (names names' : NameTable) : TypeDef → TypeDef → Prop
  | mk {t u : TypeDef} (fields : FieldsAgree names names' t u)
      (nested : ∀ t' ∈ t.nested, ∀ u' ∈ u.nested, t'.name = u'.name → Agrees names names' t' u') :
      Agrees names names' t u

namespace Agrees

variable {names names' : NameTable}

theorem fields {t u : TypeDef} (h : Agrees names names' t u) : FieldsAgree names names' t u := by
  cases h
  assumption

theorem nested {t u : TypeDef} (h : Agrees names names' t u) {t' u' : TypeDef} (ht : t' ∈ t.nested)
    (hu : u' ∈ u.nested) (hname : t'.name = u'.name) : Agrees names names' t' u' := by
  obtain ⟨-, hnested⟩ := h
  exact hnested t' ht u' hu hname

theorem symm {t u : TypeDef} (h : Agrees names names' t u) : Agrees names' names u t := by
  induction h with
  | mk fields _ ih =>
    constructor
    · intro y hy x hx hname
      exact (fields x hx y hy hname.symm).symm
    · intro u' hu t' ht hname
      exact ih t' ht u' hu hname.symm

mutual

/-- A type agrees with itself if its nested types have different names and none of them has two
fields of one name and different types. -/
theorem self (t : TypeDef) (hnames : t.NamesApart)
    (hfields : ∀ u ∈ t.within, FieldsAgree names names u u) : Agrees names names t t := by
  rcases t with ⟨token, namespaceName, name, flags, base, interfaces, genericParams, fields, methods,
    properties, events, nested, attributes⟩
  obtain ⟨hnodup, hnames⟩ := forall_within_iff.1 hnames
  obtain ⟨hself, hfields⟩ := forall_within_iff.1 hfields
  refine ⟨hself, ?_⟩
  have hinner := selfAll nested hnames hfields
  intro t ht u hu hname
  obtain rfl := List.inj_on_of_nodup_map hnodup ht hu hname
  exact hinner t ht

theorem selfAll (ts : List TypeDef) (hnames : ∀ t ∈ ts, t.NamesApart)
    (hfields : ∀ t ∈ ts, ∀ u ∈ t.within, FieldsAgree names names u u) :
    ∀ t ∈ ts, Agrees names names t t := by
  cases ts with
  | nil => exact nofun
  | cons t ts =>
    rw [List.forall_mem_cons] at hnames hfields ⊢
    exact ⟨self t hnames.1 hfields.1, selfAll ts hnames.2 hfields.2⟩

end

end Agrees

/-! ## What the comparison of two types ensures -/

/-- Whether fields, properties and events of one kind and name in two types have types of the same
text. -/
structure MembersAgree (names names' : NameTable) (t u : TypeDef) : Prop where
  fields : FieldsAgree names names' t u
  properties : ∀ x ∈ t.properties, ∀ y ∈ u.properties, x.name = y.name →
    names.describe x.signature = names'.describe y.signature
  events : ∀ x ∈ t.events, ∀ y ∈ u.events, x.name = y.name →
    names.name x.eventType = names'.name y.eventType

theorem not_membersConflict_iff {lm rm : Module} {l r : TypeDef} :
    membersConflict lm rm l r = false ↔ MembersAgree (.ofModule lm) (.ofModule rm) l r := by
  have hconflict : membersConflict lm rm l r = false ↔ ∀ y ∈ r.members, ∀ x ∈ l.members,
      (x.key (.ofModule lm)).conflicts (y.key (.ofModule rm)) = false := by
    simp [membersConflict, memberKeys_eq]
  rw [hconflict]
  constructor
  · intro h
    refine ⟨fun x hx y hy hname => ?_, fun x hx y hy hname => ?_, fun x hx y hy hname => ?_⟩
    · have hfree := h (.field y) (by simp [members, hy]) (.field x) (by simp [members, hx])
      simpa [Member.key, MemberKey.conflicts, hname] using hfree
    · have hfree := h (.property y) (by simp [members, hy]) (.property x) (by simp [members, hx])
      simpa [Member.key, MemberKey.conflicts, hname] using hfree
    · have hfree := h (.event y) (by simp [members, hy]) (.event x) (by simp [members, hx])
      simpa [Member.key, MemberKey.conflicts, hname] using hfree
  · rintro ⟨hfields, hproperties, hevents⟩ y hy x hx
    simp only [members, List.mem_append, List.mem_map] at hx hy
    rcases hx with ((⟨x, hx, rfl⟩ | ⟨x, hx, rfl⟩) | ⟨x, hx, rfl⟩) | ⟨x, hx, rfl⟩ <;>
      rcases hy with ((⟨y, hy, rfl⟩ | ⟨y, hy, rfl⟩) | ⟨y, hy, rfl⟩) | ⟨y, hy, rfl⟩ <;>
      simp only [Member.key, MemberKey.conflicts, Bool.and_eq_false_imp, beq_iff_eq, bne_eq_false_iff_eq]
    case inl.inl.inl.inl.inl.inl => exact hfields x hx y hy
    case inl.inr.inl.inr => exact hproperties x hx y hy
    case inr.inr => exact hevents x hx y hy

theorem membersAgree_of_fits {lm rm : Module} {t u : TypeDef} (h : fits lm rm t u) :
    MembersAgree (.ofModule lm) (.ofModule rm) t u := by
  simp only [fits, Bool.and_eq_true, Bool.not_eq_true'] at h
  exact not_membersConflict_iff.1 h.2

theorem unites_iff (lm rm : Module) (t u : TypeDef) :
    unites lm rm t u ↔ fits lm rm t u ∧ unitesNested lm rm t.nested u.nested := by
  cases u
  rw [unites, Bool.and_eq_true]

mutual

/-- Types that can become one agree, if the first one's nested types have different names. -/
theorem agrees_of_unites {lm rm : Module} {t : TypeDef} (u : TypeDef) (hnames : t.NamesApart)
    (h : unites lm rm t u) : Agrees (.ofModule lm) (.ofModule rm) t u := by
  rcases u with ⟨token, namespaceName, name, flags, base, interfaces, genericParams, fields, methods,
    properties, events, nested, attributes⟩
  obtain ⟨hfits, hnested⟩ := (unites_iff ..).1 h
  obtain ⟨hnodup, hnames⟩ := forall_within_iff.1 hnames
  refine ⟨(membersAgree_of_fits hfits).fields, ?_⟩
  exact agrees_of_unitesNested nested hnodup hnames hnested

theorem agrees_of_unitesNested {lm rm : Module} {ts : List TypeDef} (us : List TypeDef)
    (hnodup : (ts.map TypeDef.name).Nodup) (hnames : ∀ t ∈ ts, t.NamesApart)
    (h : unitesNested lm rm ts us) :
    ∀ t ∈ ts, ∀ u ∈ us, t.name = u.name → Agrees (.ofModule lm) (.ofModule rm) t u := by
  cases us with
  | nil => exact fun _ _ _ hu => absurd hu List.not_mem_nil
  | cons u us =>
    rw [unitesNested, Bool.and_eq_true] at h
    intro t ht u' hu hname
    rcases List.mem_cons.1 hu with heq | hu
    · subst u'
      -- the type is the one that is found under the name
      have hfind := find?_key_of_mem hnodup ht
      rw [hname] at hfind
      have hunites := h.1
      rw [hfind] at hunites
      exact agrees_of_unites u (hnames t ht) hunites
    · exact agrees_of_unitesNested us hnodup hnames h.2 t ht u' hu hname

end

end TypeDef

/-! ## Fields of a shape -/

namespace Shape

variable {l : Linkage} {ts : List (Sourced TypeDef)} {s : Shape}

/-- The key of a field of a shape. -/
def fieldKey (l : Linkage) (x : Sourced Field) : MemberKey :=
  .field x.value.name ((l.names x.source).describe x.value.signature)

theorem Gathers.nodup_fieldKeys (h : Gathers l ts s) : (s.fields.map (fieldKey l)).Nodup := by
  have hnodup := h.filed.nodup_iff.1 h.nodup
  rw [parts, List.map_append, List.map_append, List.map_append, List.map_map] at hnodup
  exact hnodup.of_append_left.of_append_left.of_append_left

/-- The keys of the fields of a shape are those of the fields of the types that it has gathered. -/
theorem Gathers.mem_fieldKeys (h : Gathers l ts s) {name text : String} :
    .field name text ∈ s.fields.map (fieldKey l) ↔ ∃ t ∈ ts, ∃ x ∈ t.value.fields, x.name = name ∧
      (l.names t.source).describe x.signature = text := by
  have hparts : MemberKey.field name text ∈ s.parts.map (fun x => x.value.key (l.names x.source)) ↔
      .field name text ∈ s.fields.map (fieldKey l) := by
    simp [parts, Sourced.map, Member.key, fieldKey]
  rw [← hparts, ← h.filed.mem_iff, h.keys]
  simp [TypeDef.members, Member.key]

/-- No two fields of a shape have one name exactly if the types that it has gathered agree. -/
theorem Gathers.nodup_fieldNames_iff (h : Gathers l ts s) :
    (s.fields.map fun x => x.value.name).Nodup ↔ ∀ t ∈ ts, ∀ t' ∈ ts,
      TypeDef.FieldsAgree (l.names t.source) (l.names t'.source) t.value t'.value := by
  constructor
  · intro hnodup t ht t' ht' x hx y hy hname
    obtain ⟨a, ha, hkey⟩ := List.mem_map.1 (h.mem_fieldKeys.2 ⟨t, ht, x, hx, rfl, rfl⟩)
    obtain ⟨b, hb, hkey'⟩ := List.mem_map.1 (h.mem_fieldKeys.2 ⟨t', ht', y, hy, rfl, rfl⟩)
    obtain ⟨haname, hatext⟩ := MemberKey.field.inj hkey
    obtain ⟨hbname, hbtext⟩ := MemberKey.field.inj hkey'
    -- the two fields of the shape have one name, so they are one field
    obtain rfl := List.inj_on_of_nodup_map hnodup ha hb (haname.trans (hname.trans hbname.symm))
    exact hatext.symm.trans hbtext
  · intro hagree
    have hkeys := h.nodup_fieldKeys
    refine List.Nodup.map_on ?_ hkeys.of_map
    intro a ha b hb hname
    obtain ⟨t, ht, x, hx, hxname, hxtext⟩ := h.mem_fieldKeys.1 (List.mem_map_of_mem ha)
    obtain ⟨t', ht', y, hy, hyname, hytext⟩ := h.mem_fieldKeys.1 (List.mem_map_of_mem hb)
    have htext := hagree t ht t' ht' x hx y hy (hxname.trans (hname.trans hyname.symm))
    refine List.inj_on_of_nodup_map hkeys ha hb ?_
    rw [fieldKey, fieldKey, hname, ← hxtext, ← hytext, htext]

/-- The same with what is nested in the shape. -/
theorem Gathered.nodup_fieldNames_iff (h : Gathered l ts s) :
    (∀ u ∈ s.within, (u.fields.map fun x => x.value.name).Nodup) ↔ ∀ t ∈ ts, ∀ t' ∈ ts,
      TypeDef.Agrees (l.names t.source) (l.names t'.source) t.value t'.value := by
  induction h with
  | @mk ts s parts distinct names nested ih =>
    rw [within_eq, List.forall_mem_cons, parts.nodup_fieldNames_iff, List.forall_mem_flatMap]
    constructor
    · rintro ⟨hfields, hinner⟩ t ht t' ht'
      refine ⟨hfields t ht t' ht', ?_⟩
      intro u hu u' hu' hname
      -- both have gone into the nested shape of their name
      have hmem : ⟨t.source, u⟩ ∈ nestedOf ts := mem_nestedOf.2 ⟨t, ht, rfl, hu⟩
      have hmem' : ⟨t'.source, u'⟩ ∈ nestedOf ts := mem_nestedOf.2 ⟨t', ht', rfl, hu'⟩
      obtain ⟨n, hn, hnname⟩ := List.mem_map.1 ((names u.name).2 (List.mem_map.2 ⟨_, hmem, rfl⟩))
      refine (ih n hn).1 (hinner n hn) ⟨t.source, u⟩ ?_ ⟨t'.source, u'⟩ ?_
      · exact List.mem_filter.2 ⟨hmem, beq_iff_eq.2 hnname.symm⟩
      · exact List.mem_filter.2 ⟨hmem', beq_iff_eq.2 (hname.symm.trans hnname.symm)⟩
    · intro hagree
      refine ⟨fun t ht t' ht' => (hagree t ht t' ht').fields, ?_⟩
      intro n hn
      refine (ih n hn).2 fun u hu u' hu' => ?_
      obtain ⟨hmem, hname⟩ := List.mem_filter.1 hu
      obtain ⟨hmem', hname'⟩ := List.mem_filter.1 hu'
      obtain ⟨t, ht, hsource, hnested⟩ := mem_nestedOf.1 hmem
      obtain ⟨t', ht', hsource', hnested'⟩ := mem_nestedOf.1 hmem'
      rw [hsource, hsource']
      exact (hagree t ht t' ht').nested hnested hnested'
        ((beq_iff_eq.1 hname).trans (beq_iff_eq.1 hname').symm)

theorem fieldNames_image (l : Linkage) (sub : Substitution) (s : Shape) :
    (s.image l sub).fields.map Field.name = s.fields.map fun x => x.value.name := by
  rcases s with ⟨source, origin, name, flags, fields, methods, properties, events, interfaces,
    attributes, nested, members, interfaceNames⟩
  rw [image, List.map_map]
  rfl

end Shape

/-! ## Fields of the output -/

theorem Linkage.names_of_getElem? {set : ModuleSet} {source : Nat} {m : Module}
    (hm : set.inputs[source]? = some m) (policy : Policy) :
    (Linkage.ofSet set policy).names source = .ofModule m := by
  have hlt := (List.getElem?_eq_some_iff.1 hm).1
  rw [Linkage.names, Linkage.ofSet, List.getElem?_map, List.getElem?_append_left hlt, hm]
  rfl

theorem Linkage.names_ofSet {set : ModuleSet} {d : Declaration} (hd : d ∈ set.declarations)
    (policy : Policy) : (Linkage.ofSet set policy).names d.origin.module = .ofModule d.module :=
  names_of_getElem? (ModuleSet.getElem?_of_mem_declarations hd).1 policy

namespace Relocation

open Plan TypeDef

variable {set : ModuleSet} {plan : Plan} {p : Policy}

/-- Types that become part of another one have been compared with it, unless their namespace is
shared. -/
theorem agrees_of_into {log : Log} (hbuild : ((build set (.ofSet set) p).run.run log).1 = .ok plan)
    (hshared : p.options.sharedNamespaces = []) {first d : Declaration}
    (hfirst : first ∈ set.declarations) (hd : d ∈ set.declarations)
    (hplace : plan.placement? d.origin = some (.into first.origin)) (hnames : first.type.NamesApart) :
    Agrees (.ofModule first.module) (.ofModule d.module) first.type d.type := by
  obtain ⟨xs, decisions, between, after, hplaced, hplacements⟩ := exists_placedFor hbuild
  obtain ⟨s, hs, hjoined, horigin⟩ := hplaced.exists_joined hplacements hd hplace
  obtain rfl := ModuleSet.eq_of_origin_eq
    (ModuleSet.mem_declarations_of_mem hs List.mem_cons_self) hfirst horigin
  have hjoins := (List.mem_filter.1 hjoined).2
  have hnot : p.sharesNamespace s.first.type.namespaceName = false := by
    rw [Policy.sharesNamespace, hshared]
    rfl
  rw [joins, hnot, Bool.false_or, Bool.and_eq_true] at hjoins
  exact agrees_of_unites d.type hnames hjoins.2

/-- No type of the output has two fields of one name exactly if the types that go into one type agree. -/
theorem run_nodup_fieldNames (hset : set.WellNumbered) {log : Log} {out : Module}
    (hrun : ((run set plan p).run.run log).1 = .ok out) :
    (∀ t ∈ out.allTypes, (t.fields.map Field.name).Nodup) ↔
      ∀ first ∈ set.emitted plan, ∀ d ∈ set.declarations, ∀ e ∈ set.declarations,
        plan.GoesInto d first.origin → plan.GoesInto e first.origin →
          Agrees (.ofModule d.module) (.ofModule e.module) d.type e.type := by
  obtain ⟨shapes, sub, a, attributes, tables, log₁, hlayout, -, hwritten, -⟩ := run_ok hrun
  have hset' : (Linkage.ofSet set p).set.WellNumbered := hset
  obtain ⟨redirects, ⟨placed, rfl, hplaced, hgathered⟩, -⟩ :=
    layOut_settles (Shape.buildAll_gathers hset' plan) hlayout
  have horigins : placed.map Prod.fst = (set.emitted plan).map Declaration.origin := hplaced
  have hgathers : ∀ q ∈ placed,
      Shape.Gathered (.ofSet set p) (Shape.contributors plan set.declarations q.1) q.2 := hgathered
  have hshapes : (∀ t ∈ out.allTypes, (t.fields.map Field.name).Nodup) ↔
      ∀ q ∈ placed, ∀ u ∈ q.2.within, (u.fields.map fun x => x.value.name).Nodup := by
    rw [allTypes_eq hwritten, List.forall_mem_map, Shape.withinAll_eq, List.flatMap_map,
      List.forall_mem_flatMap]
    simp only [Shape.fieldNames_image]
  rw [hshapes]
  constructor
  · intro hnodup first hfirst d hd e he hgoes hgoes'
    have hmem : first.origin ∈ placed.map Prod.fst := by
      rw [horigins]
      exact List.mem_map_of_mem hfirst
    obtain ⟨q, hq, horigin⟩ := List.mem_map.1 hmem
    rw [← horigin] at hgoes hgoes'
    have hagree := (hgathers q hq).nodup_fieldNames_iff.1 (hnodup q hq)
      _ (Shape.mem_contributors.2 ⟨d, hd, hgoes, rfl⟩) _ (Shape.mem_contributors.2 ⟨e, he, hgoes', rfl⟩)
    dsimp only at hagree
    rwa [Linkage.names_ofSet hd, Linkage.names_ofSet he] at hagree
  · intro hagree q hq
    have hmem : q.1 ∈ (set.emitted plan).map Declaration.origin := by
      rw [← horigins]
      exact List.mem_map_of_mem hq
    obtain ⟨first, hfirst, horigin⟩ := List.mem_map.1 hmem
    refine (hgathers q hq).nodup_fieldNames_iff.2 fun t ht t' ht' => ?_
    obtain ⟨d, hd, hgoes, rfl⟩ := Shape.mem_contributors.1 ht
    obtain ⟨e, he, hgoes', rfl⟩ := Shape.mem_contributors.1 ht'
    rw [← horigin] at hgoes hgoes'
    dsimp only
    rw [Linkage.names_ofSet hd, Linkage.names_ofSet he]
    exact hagree first hfirst d hd e he hgoes hgoes'

theorem fieldsAgree_of_nodup {names : NameTable} {t : TypeDef} (h : (t.fields.map Field.name).Nodup) :
    FieldsAgree names names t t := by
  intro x hx y hy hname
  obtain rfl := List.inj_on_of_nodup_map h hx hy hname
  rfl

/-- Whether two types that go into one type have been compared: one of them is that type, and the types
nested in it have different names, so that none is taken for another one. -/
def Compared (first d e : Declaration) : Prop :=
  (d.origin = first.origin ∨ e.origin = first.origin) ∧ first.type.NamesApart

/-- Whether types that go into one type agree where they have not been compared. -/
def RestAgrees (set : ModuleSet) (plan : Plan) : Prop :=
  ∀ first ∈ set.emitted plan, ∀ d ∈ set.declarations, ∀ e ∈ set.declarations,
    plan.GoesInto d first.origin → plan.GoesInto e first.origin → ¬ Compared first d e →
      Agrees (.ofModule d.module) (.ofModule e.module) d.type e.type

/-- Types that have been compared agree. -/
theorem agrees_of_compared {log : Log}
    (hinputs : ∀ m ∈ set.inputs, ∀ t ∈ m.allTypes, t.FieldsAgree (.ofModule m) (.ofModule m) t)
    (hshared : p.options.sharedNamespaces = [])
    (hbuild : ((build set (.ofSet set) p).run.run log).1 = .ok plan) {first d e : Declaration}
    (hfirst : first ∈ set.declarations) (hd : d ∈ set.declarations) (he : e ∈ set.declarations)
    (hgoes : plan.GoesInto d first.origin) (hgoes' : plan.GoesInto e first.origin)
    (h : Compared first d e) : Agrees (.ofModule d.module) (.ofModule e.module) d.type e.type := by
  obtain ⟨heither, hnames⟩ := h
  have hself : Agrees (.ofModule first.module) (.ofModule first.module) first.type first.type := by
    refine Agrees.self _ hnames fun u hu => ?_
    obtain ⟨hmodule, htype⟩ := ModuleSet.getElem?_of_mem_declarations hfirst
    exact hinputs _ (List.mem_of_getElem? hmodule) u (List.mem_flatMap.2 ⟨_, htype, hu⟩)
  -- whatever goes into the first type is that type or has been found to fit it
  have hfits : ∀ f ∈ set.declarations, plan.GoesInto f first.origin →
      Agrees (.ofModule first.module) (.ofModule f.module) first.type f.type := by
    rintro f hf (heq | hplace)
    · obtain rfl := ModuleSet.eq_of_origin_eq hf hfirst heq
      exact hself
    · exact agrees_of_into hbuild hshared hfirst hf hplace hnames
  rcases heither with heq | heq
  · obtain rfl := ModuleSet.eq_of_origin_eq hd hfirst heq
    exact hfits e he hgoes'
  · obtain rfl := ModuleSet.eq_of_origin_eq he hfirst heq
    exact (hfits d hd hgoes).symm

/-- Where no namespace is shared and no type of an input has two fields of one name and different
types, no type of the output has two fields of one name exactly if the types that go into one type also
agree where they have not been compared. In particular no type of the output then has two fields of one
name and different types. -/
theorem run_nodup_fieldNames_iff (hset : set.WellNumbered)
    (hinputs : ∀ m ∈ set.inputs, ∀ t ∈ m.allTypes, t.FieldsAgree (.ofModule m) (.ofModule m) t)
    (hshared : p.options.sharedNamespaces = []) {log log' : Log} {out : Module}
    (hbuild : ((build set (.ofSet set) p).run.run log).1 = .ok plan)
    (hrun : ((run set plan p).run.run log').1 = .ok out) :
    ((∀ t ∈ out.allTypes, (t.fields.map Field.name).Nodup) ↔ RestAgrees set plan) ∧
      (RestAgrees set plan → ∀ t ∈ out.allTypes, t.FieldsAgree (.ofModule out) (.ofModule out) t) := by
  have hiff : (∀ t ∈ out.allTypes, (t.fields.map Field.name).Nodup) ↔ RestAgrees set plan := by
    rw [run_nodup_fieldNames hset hrun]
    constructor
    · intro hagree first hfirst d hd e he hgoes hgoes' _
      exact hagree first hfirst d hd e he hgoes hgoes'
    · intro hrest first hfirst d hd e he hgoes hgoes'
      by_cases hcompared : Compared first d e
      · exact agrees_of_compared hinputs hshared hbuild (List.mem_filter.1 hfirst).1 hd he hgoes hgoes'
          hcompared
      · exact hrest first hfirst d hd e he hgoes hgoes' hcompared
  exact ⟨hiff, fun hrest t ht => fieldsAgree_of_nodup (hiff.2 hrest t ht)⟩

/-! ## Three modules with one type -/

/-- A module with a class `N.T` that has some fields. -/
def fieldModule (name : String) (fields : List Field) : LoadedModule :=
  ⟨⟨name ++ ".dll"⟩, { Module.ofIdentity (.ofName name ⟨1, 0, 0, 0⟩) .dll with
    types := [⟨⟨0x02000001⟩, "N", "T", ⟨0x1⟩, none, [], [], fields, [], [], [], [], []⟩] }⟩

/-- A field called `x`. -/
def fieldX (type : Primitive) : Field := ⟨⟨0x04000001⟩, "x", ⟨0x6⟩, .primitive type, []⟩

/-- Three modules with this class, the first one without fields. -/
def fieldSet (second third : List Field) : ModuleSet :=
  { primary := fieldModule "A" [], others := [fieldModule "B" second, fieldModule "C" third]
    references := [], attributeSource := none }

/-- The plan to make one class of the three. -/
def threePlan : Plan :=
  { placements := [(⟨0, 0⟩, .emit "T" false), (⟨1, 0⟩, .into ⟨0, 0⟩), (⟨2, 0⟩, .into ⟨0, 0⟩)]
    resources := [], attributes := [], renames := [], hidden := 0 }

/-- Two classes of different fields both fit a class without fields, and become one class that has both
fields under one name. -/
theorem run_joins_conflicting_fields :
    let set := fieldSet [fieldX .i4] [fieldX .string]
    set.WellNumbered ∧ unionPolicy.options.unionMerge ∧ unionPolicy.options.sharedNamespaces = [] ∧
    (∀ m ∈ set.inputs, ∀ t ∈ m.allTypes, t.FieldsAgree (.ofModule m) (.ofModule m) t) ∧
    ((build set (.ofSet set) unionPolicy).run.run []).1 = .ok threePlan ∧
    ∃ out, ((run set threePlan unionPolicy).run.run []).1 = .ok out ∧
      ¬ ∀ t ∈ out.allTypes, t.FieldsAgree (.ofModule out) (.ofModule out) t := by
  intro set
  have hok : ((run set threePlan unionPolicy).run.run []).1.isOk := by decide +kernel
  have hagree : ((run set threePlan unionPolicy).run.run []).1.toOption.map (fun out => decide
      (∀ t ∈ out.allTypes, t.FieldsAgree (.ofModule out) (.ofModule out) t)) = some false := by
    decide +kernel
  obtain ⟨out, hrun⟩ := exists_eq_ok hok
  rw [hrun] at hagree
  refine ⟨by decide, rfl, rfl, by decide +kernel, by decide +kernel, out, hrun, ?_⟩
  exact of_decide_eq_false (Option.some.inj hagree)

/-- Without the difference the class has the field once. -/
theorem run_joins_equal_fields : ∃ out,
    ((run (fieldSet [fieldX .i4] [fieldX .i4]) threePlan unionPolicy).run.run []).1 = .ok out ∧
    ∀ t ∈ out.allTypes, (t.fields.map Field.name).Nodup := by
  let set := fieldSet [fieldX .i4] [fieldX .i4]
  have hok : ((run set threePlan unionPolicy).run.run []).1.isOk := by decide +kernel
  have hbuild : ((build set (.ofSet set) unionPolicy).run.run []).1 = .ok threePlan := by
    decide +kernel
  have hrest : RestAgrees set threePlan := by
    have hfields : ∀ d ∈ set.declarations, ∀ e ∈ set.declarations, d.type.nested.length = 0 ∧
        FieldsAgree (.ofModule d.module) (.ofModule e.module) d.type e.type := by
      decide +kernel
    intro _ _ d hd e he _ _ _
    obtain ⟨hnested, hfields⟩ := hfields d hd e he
    rw [List.length_eq_zero_iff] at hnested
    exact ⟨hfields, by rw [hnested]; exact nofun⟩
  obtain ⟨out, hrun⟩ := exists_eq_ok hok
  exact ⟨out, hrun, (run_nodup_fieldNames_iff (by decide) (by decide +kernel) rfl hbuild hrun).1.2 hrest⟩

end Relocation

end ModuleLinker
