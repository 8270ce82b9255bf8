import ModuleLinker.Proofs.Plan.Primary
import ModuleLinker.Proofs.Relocation.Union

namespace ModuleLinker

/-! # Copies and twins

What becomes of a module and a copy of it, and of types that two modules declare in the same words.
-/

/-! ## A module and a copy of it

A copy of a module under another name declares and refers to the same. If each type of the module can
become one with itself, the types of the copy become part of those of the module.
-/

namespace Module

/-- The module under another name. -/
def called (m : Module) (name : String) : Module :=
  { m with identity := { m.identity with name } }

variable (m : Module) (name : String)

/-! ## Names in a copy -/

theorem typeRefNameWithin_called (steps : Nat) (token : Token) :
    (m.called name).typeRefNameWithin steps token = m.typeRefNameWithin steps token := by
  induction steps generalizing token with
  | zero => rfl
  | succ steps ih =>
    simp only [typeRefNameWithin, ih]
    rfl

theorem targetWithin_called (steps : Nat) (row : TypeRef) :
    (m.called name).targetWithin steps row = m.targetWithin steps row := by
  induction steps generalizing row with
  | zero => rfl
  | succ steps ih =>
    have hsteps : (m.called name).targetWithin steps = m.targetWithin steps := funext ih
    simp only [targetWithin, hsteps]
    rfl

theorem typeRefName?_called : (m.called name).typeRefName? = m.typeRefName? :=
  funext fun token => congrArg Option.join (typeRefNameWithin_called m name (m.typeRefs.length + 1) token)

theorem typeRefTarget?_called (token : Token) :
    (m.called name).typeRefTarget? token = m.typeRefTarget? token := by
  have hsteps : (m.called name).targetWithin m.typeRefs.length = m.targetWithin m.typeRefs.length :=
    funext (targetWithin_called m name m.typeRefs.length)
  unfold typeRefTarget?
  exact congrArg (fun f => (m.typeRef? token).bind f) hsteps

theorem typeName?_called : (m.called name).typeName? = m.typeName? := by
  funext token
  unfold typeName?
  rw [typeRefName?_called]
  rfl

theorem ofModule_called : NameTable.ofModule (m.called name) = NameTable.ofModule m := by
  unfold NameTable.ofModule
  rw [typeRefName?_called]
  rfl

theorem attributeUsage?_called : (m.called name).attributeUsage? = m.attributeUsage? := by
  funext fullName
  unfold attributeUsage?
  rw [typeName?_called]
  rfl

end Module

namespace TypeDef

variable (m : Module) (name : String)

theorem fits_called (l r : TypeDef) : fits m (m.called name) l r = fits m m l r := by
  unfold fits isValueType baseName? membersConflict
  rw [Module.typeName?_called, Module.ofModule_called]

mutual

theorem unites_called (l r : TypeDef) : unites m (m.called name) l r = unites m m l r := by
  rcases r with ⟨_, _, _, _, _, _, _, _, _, _, _, nested, _⟩
  rw [unites, unites, fits_called, unitesNested_called]

theorem unitesNested_called (ls rs : List TypeDef) :
    unitesNested m (m.called name) ls rs = unitesNested m m ls rs := by
  cases rs with
  | nil => rfl
  | cons r rest =>
    rw [unitesNested, unitesNested, unitesNested_called ls rest]
    congr 1
    split
    case h_1 l _ => exact unites_called l r
    case h_2 => rfl

end

end TypeDef

namespace Plan

open ModuleSet

variable {m : LoadedModule} {path : Path} {name : String} {plan : Plan} {p : Policy}

/-- The types of a name are one of the module and the same of the copy. -/
theorem claimants_pair (hnames : (m.module.types.map TypeDef.qualifiedName).Nodup) {index i : Nat}
    {module : Module} {type : TypeDef} (htype : m.module.types[i]? = some type) :
    (pair m ⟨path, m.module.called name⟩).claimants (Declaration.name ⟨⟨index, i⟩, module, type⟩) =
      [⟨⟨0, i⟩, m.module, type⟩, ⟨⟨1, i⟩, m.module.called name, type⟩] := by
  have hfirst : ⟨⟨0, i⟩, m.module, type⟩ ∈ declarationsOf m.module 0 :=
    mem_declarationsOf.2 ⟨i, type, htype, rfl⟩
  have hsecond : ⟨⟨1, i⟩, m.module.called name, type⟩ ∈ declarationsOf (m.module.called name) 1 :=
    mem_declarationsOf.2 ⟨i, type, htype, rfl⟩
  have hcopied : ((m.module.called name).types.map TypeDef.qualifiedName).Nodup := hnames
  rw [claimants, declarations_pair, List.filter_append]
  exact congrArg₂ (· ++ ·) (filter_declarationsOf hnames hfirst) (filter_declarationsOf hcopied hsecond)

theorem symbol_pair (hnames : (m.module.types.map TypeDef.qualifiedName).Nodup) {s : Symbol}
    (hs : s ∈ (SymbolTable.ofSet (pair m ⟨path, m.module.called name⟩)).symbols) :
    ∃ i type, m.module.types[i]? = some type ∧ s.first = ⟨⟨0, i⟩, m.module, type⟩ ∧
      s.others = [⟨⟨1, i⟩, m.module.called name, type⟩] := by
  have hfirst := mem_declarations_of_mem hs List.mem_cons_self
  have hname := (pair m ⟨path, m.module.called name⟩).groups.name_eq hs List.mem_cons_self
  obtain ⟨index, i, module, type, htype, heq⟩ : ∃ index i module type,
      m.module.types[i]? = some type ∧ s.first = ⟨⟨index, i⟩, module, type⟩ := by
    rw [declarations_pair] at hfirst
    rcases List.mem_append.1 hfirst with hmem | hmem
    · obtain ⟨i, type, htype, heq⟩ := mem_declarationsOf.1 hmem
      exact ⟨0, i, m.module, type, htype, heq⟩
    · obtain ⟨i, type, htype, heq⟩ := mem_declarationsOf.1 hmem
      exact ⟨1, i, m.module.called name, type, htype, heq⟩
  have hclaimants := claimants_eq hs
  rw [← hname, heq, claimants_pair hnames htype, List.cons.injEq] at hclaimants
  exact ⟨i, type, htype, hclaimants.1 ▸ heq, hclaimants.2.symm⟩

theorem primaryKeeps_pair (hnames : (m.module.types.map TypeDef.qualifiedName).Nodup)
    (hunion : p.options.unionMerge) (hunites : ∀ t ∈ m.module.types, TypeDef.unites m.module m.module t t) :
    PrimaryKeeps (pair m ⟨path, m.module.called name⟩) p := by
  intro s hs
  obtain ⟨i, type, htype, hfirst, hothers⟩ := symbol_pair hnames hs
  have hjoins : (pair m ⟨path, m.module.called name⟩).joins p ⟨⟨1, i⟩, m.module.called name, type⟩ := by
    refine (joins_iff hs (List.mem_cons_of_mem _ (hothers ▸ List.mem_singleton_self _))).2 ⟨?_, ?_⟩
    · rw [hothers]
      exact List.mem_singleton_self _
    · rw [hfirst, joins, hunion, TypeDef.unites_called, hunites type (List.mem_of_getElem? htype)]
      exact Bool.or_true _
  constructor
  · rw [hfirst]
  · rw [remaining, Symbol.contributors, hothers, List.filter_cons, List.filter_singleton, hjoins,
      Bool.eq_false_iff.2 (first_not_joins hs)]
    rfl

/-- The types of the module stay as they are declared, and those of the copy become part of them. -/
theorem placement_pair (hnames : (m.module.types.map TypeDef.qualifiedName).Nodup)
    (hunion : p.options.unionMerge) (hunites : ∀ t ∈ m.module.types, TypeDef.unites m.module m.module t t)
    {log : Log} (hplan : ((build (pair m ⟨path, m.module.called name⟩)
      (.ofSet (pair m ⟨path, m.module.called name⟩)) p).run.run log).1 = .ok plan) {i : Nat} {type : TypeDef}
    (htype : m.module.types[i]? = some type) :
    plan.placement? ⟨0, i⟩ = some (.emit type.name false) ∧
      plan.placement? ⟨1, i⟩ = some (.into ⟨0, i⟩) := by
  have hkeeps : PrimaryKeeps (pair m ⟨path, m.module.called name⟩) p :=
    primaryKeeps_pair hnames hunion hunites
  have hd : ⟨⟨0, i⟩, m.module, type⟩ ∈ (pair m ⟨path, m.module.called name⟩).declarations := by
    rw [declarations_pair]
    exact List.mem_append_left _ (mem_declarationsOf.2 ⟨i, type, htype, rfl⟩)
  obtain ⟨s, hs, hname, -⟩ := (pair m ⟨path, m.module.called name⟩).groups.exists_symbol hd
  have hclaimants := claimants_eq hs
  rw [hname, claimants_pair hnames htype, List.cons.injEq] at hclaimants
  have hfirst := hkeeps.placement_first hplan hs
  have hother := hkeeps.placement_other hplan hs (hclaimants.2 ▸ List.mem_singleton_self _)
  rw [← hclaimants.1] at hfirst hother
  exact ⟨hfirst, hother⟩

end Plan

/-! ## Types that are declared twice

Two modules may declare a type in the same words. Whether the two become one is a question about the one
declaration: it has to fit itself. Every member of the one side is compared with every member of the
other, so a type does not fit itself if two of its fields, properties or events have one name and
different types, as overloaded indexers can have.
-/

namespace TypeDef

/-! ## What is compared -/

/-- When `l` and `r` are compared, `a` is compared with `b`: a type that is nested in the second one is
compared with the first type of its name that is nested in the first one. -/
inductive Faces : TypeDef → TypeDef → TypeDef → TypeDef → Prop where
  | self (l r : TypeDef) : Faces l r l r
  | nested {l r l' r' a b : TypeDef} (hr : r' ∈ r.nested)
      (hl : l.nested.find? (·.name == r'.name) = some l') (h : Faces l' r' a b) : Faces l r a b

theorem faces_iff {l r a b : TypeDef} : Faces l r a b ↔ (a = l ∧ b = r) ∨ ∃ r' ∈ r.nested, ∃ l',
    l.nested.find? (·.name == r'.name) = some l' ∧ Faces l' r' a b := by
  constructor
  · intro h
    cases h with
    | self => exact .inl ⟨rfl, rfl⟩
    | nested hr hl h => exact .inr ⟨_, hr, _, hl, h⟩
  · rintro (⟨rfl, rfl⟩ | ⟨r', hr, l', hl, h⟩)
    · exact .self _ _
    · exact .nested hr hl h

variable {lm rm m : Module}

mutual

/-- Types can become one if all that is compared fits. -/
theorem unites_iff_faces (l r : TypeDef) :
    unites lm rm l r ↔ ∀ a b, Faces l r a b → fits lm rm a b := by
  rcases r with ⟨token, namespaceName, name, flags, base, interfaces, genericParams, fields, methods,
    properties, events, nested, attributes⟩
  rw [unites_iff, unitesNested_iff_faces l.nested nested]
  constructor
  · rintro ⟨hfits, hnested⟩ a b hfaces
    rcases faces_iff.1 hfaces with ⟨rfl, rfl⟩ | ⟨r', hr, l', hl, hinner⟩
    · exact hfits
    · exact hnested r' hr l' hl a b hinner
  · intro hall
    exact ⟨hall _ _ (.self _ _), fun r' hr l' hl a b hinner => hall a b (.nested hr hl hinner)⟩

theorem unitesNested_iff_faces (ls rs : List TypeDef) : unitesNested lm rm ls rs ↔
    ∀ r ∈ rs, ∀ l, ls.find? (·.name == r.name) = some l → ∀ a b, Faces l r a b → fits lm rm a b := by
  cases rs with
  | nil => exact iff_of_true rfl fun _ hr => absurd hr List.not_mem_nil
  | cons r rs =>
    rw [unitesNested, Bool.and_eq_true, unitesNested_iff_faces ls rs, List.forall_mem_cons]
    refine and_congr_left fun _ => ?_
    split
    case h_1 l hl =>
      rw [unites_iff_faces l r, hl]
      exact ⟨fun h _ heq => Option.some.inj heq ▸ h, fun h => h l rfl⟩
    case h_2 hnone =>
      rw [hnone]
      exact iff_of_true rfl nofun

end

/-! ## Types that fit themselves -/

/-- Two types fit together, leaving aside the types nested in them. -/
structure Fits (lm rm : Module) (l r : TypeDef) : Prop where
  isInterface : l.isInterface = r.isInterface
  isValueType : l.isValueType lm = r.isValueType rm
  arity : l.genericParams.length = r.genericParams.length
  base : l.baseName? lm = r.baseName? rm
  members : MembersAgree (.ofModule lm) (.ofModule rm) l r

theorem fits_iff {l r : TypeDef} : fits lm rm l r ↔ Fits lm rm l r := by
  simp only [fits, Bool.and_eq_true, beq_iff_eq, Bool.not_eq_true', not_membersConflict_iff]
  constructor
  · rintro ⟨⟨⟨⟨hinterface, hvalue⟩, harity⟩, hbase⟩, hmembers⟩
    exact ⟨hinterface, hvalue, harity, hbase, hmembers⟩
  · rintro ⟨hinterface, hvalue, harity, hbase, hmembers⟩
    exact ⟨⟨⟨⟨hinterface, hvalue⟩, harity⟩, hbase⟩, hmembers⟩

/-- A type fits itself: no two of its fields, properties or events have one name and different types,
and so on for the types nested in it, of which a later one of a name has to fit the first one. -/
def FitsItself (m : Module) (t : TypeDef) : Prop := ∀ a b, Faces t t a b → Fits m m a b

theorem unites_self_iff (m : Module) (t : TypeDef) : unites m m t t ↔ FitsItself m t := by
  simp only [unites_iff_faces, fits_iff, FitsItself]

mutual

/-- Where nested types have different names, each type is compared with itself only. -/
theorem faces_self_iff (t : TypeDef) (hapart : t.NamesApart) (a b : TypeDef) :
    Faces t t a b ↔ a = b ∧ b ∈ t.within := by
  rcases t with ⟨token, namespaceName, name, flags, base, interfaces, genericParams, fields, methods,
    properties, events, nested, attributes⟩
  obtain ⟨hnodup, hinner⟩ := forall_within_iff.1 hapart
  have hself := facesAll_self_iff nested hinner
  rw [faces_iff, within_eq, List.mem_cons, List.mem_flatMap]
  constructor
  · rintro (⟨rfl, rfl⟩ | ⟨r, hr, l, hl, h⟩)
    · exact ⟨rfl, .inl rfl⟩
    · obtain rfl := Option.some.inj ((find?_key_of_mem hnodup hr).symm.trans hl)
      obtain ⟨heq, hmem⟩ := (hself r hr a b).1 h
      exact ⟨heq, .inr ⟨r, hr, hmem⟩⟩
  · rintro ⟨rfl, rfl | ⟨r, hr, hmem⟩⟩
    · exact .inl ⟨rfl, rfl⟩
    · exact .inr ⟨r, hr, r, find?_key_of_mem hnodup hr, (hself r hr a a).2 ⟨rfl, hmem⟩⟩

theorem facesAll_self_iff (ts : List TypeDef) (hapart : ∀ t ∈ ts, t.NamesApart) :
    ∀ t ∈ ts, ∀ a b, Faces t t a b ↔ a = b ∧ b ∈ t.within := by
  cases ts with
  | nil => exact nofun
  | cons t ts =>
    rw [List.forall_mem_cons] at hapart ⊢
    exact ⟨faces_self_iff t hapart.1, facesAll_self_iff ts hapart.2⟩

end

/-- Then a type fits itself if no two of its members differ in their types alone, and the same holds of
the types nested in it. -/
theorem fitsItself_iff {t : TypeDef} (hapart : t.NamesApart) :
    FitsItself m t ↔ ∀ u ∈ t.within, MembersAgree (.ofModule m) (.ofModule m) u u := by
  constructor
  · intro h u hu
    exact (h u u ((faces_self_iff t hapart u u).2 ⟨rfl, hu⟩)).members
  · intro h a b hfaces
    obtain ⟨rfl, hmem⟩ := (faces_self_iff t hapart a b).1 hfaces
    exact ⟨rfl, rfl, rfl, rfl, h a hmem⟩

/-! ## Types that are declared in the same words -/

/-- Two types of two modules are declared in the same words, as far as words can be compared across
modules: the texts of names and signatures, not tokens. -/
inductive Alike (lm rm : Module) : TypeDef → TypeDef → Prop where
  | mk {l r : TypeDef} (name : l.name = r.name) (isInterface : l.isInterface = r.isInterface)
      (isValueType : l.isValueType lm = r.isValueType rm)
      (arity : l.genericParams.length = r.genericParams.length) (base : l.baseName? lm = r.baseName? rm)
      (members : (l.memberKeys (.ofModule lm)).map Prod.fst = (r.memberKeys (.ofModule rm)).map Prod.fst)
      (nested : List.Forall₂ (Alike lm rm) l.nested r.nested) : Alike lm rm l r

theorem Alike.name {l r : TypeDef} (h : Alike lm rm l r) : l.name = r.name := by
  cases h
  assumption

theorem Alike.nested {l r : TypeDef} (h : Alike lm rm l r) :
    List.Forall₂ (Alike lm rm) l.nested r.nested := by
  cases h
  assumption

theorem membersConflict_eq (l r : TypeDef) : membersConflict lm rm l r =
    ((r.memberKeys (.ofModule rm)).map Prod.fst).any fun b =>
      ((l.memberKeys (.ofModule lm)).map Prod.fst).any fun a => a.conflicts b := by
  rw [List.any_map]
  unfold membersConflict
  simp only [List.any_map]
  rfl

/-- What fits one of them fits the other. -/
theorem Alike.fits_eq {l r : TypeDef} (h : Alike lm rm l r) (t : TypeDef) :
    fits m rm t r = fits m lm t l := by
  obtain ⟨-, hinterface, hvalue, harity, hbase, hmembers, -⟩ := h
  unfold fits
  rw [membersConflict_eq, membersConflict_eq, hinterface, hvalue, harity, hbase, hmembers]

mutual

theorem unites_alike {l : TypeDef} (r : TypeDef) (h : Alike lm rm l r) (t : TypeDef) :
    unites m rm t r = unites m lm t l := by
  rcases r with ⟨token, namespaceName, name, flags, base, interfaces, genericParams, fields, methods,
    properties, events, nested, attributes⟩
  rw [Bool.eq_iff_iff, unites_iff, unites_iff, h.fits_eq, unitesNested_alike nested h.nested]

theorem unitesNested_alike {ls : List TypeDef} (rs : List TypeDef)
    (h : List.Forall₂ (Alike lm rm) ls rs) (ts : List TypeDef) :
    unitesNested m rm ts rs = unitesNested m lm ts ls := by
  cases rs with
  | nil =>
    obtain rfl := List.forall₂_nil_right_iff.1 h
    rfl
  | cons r rs =>
    obtain ⟨l, ls, hfirst, hrest, rfl⟩ := List.forall₂_cons_right_iff.1 h
    rw [unitesNested, unitesNested, hfirst.name, unitesNested_alike rs hrest]
    congr 1
    split
    case h_1 t _ => exact unites_alike r hfirst t
    case h_2 => rfl

end

end TypeDef

/-! ## Plans -/

namespace ModuleSet

variable {set : ModuleSet} {p : Policy} {name : String} {first : Declaration} {others : List Declaration}

/-- The symbol of a name that is claimed. -/
theorem symbol_of_claimants (h : set.claimants name = first :: others) :
    ⟨name, first, others⟩ ∈ (SymbolTable.ofSet set).symbols := by
  have hfirst : first ∈ set.claimants name := h ▸ List.mem_cons_self
  obtain ⟨hdeclared, hname⟩ := List.mem_filter.1 hfirst
  obtain ⟨⟨name', first', others'⟩, hs, hsame, -⟩ := set.groups.exists_symbol hdeclared
  obtain rfl : name' = name := hsame.trans (beq_iff_eq.1 hname)
  have hclaimants := claimants_eq hs
  rw [h, List.cons.injEq] at hclaimants
  obtain ⟨rfl, rfl⟩ := hclaimants
  exact hs

/-- If all the others become part of the first type that claims a name, the name is not contested. -/
theorem not_contested_of_joins (h : set.claimants name = first :: others)
    (hjoins : ∀ d ∈ others, Plan.joins p first d) : ¬set.Contested p name := by
  have hs := symbol_of_claimants h
  have hothers : others.filter (fun d => !set.joins p d && d.type.flags.isPublic && !p.selects d) = [] := by
    refine List.filter_eq_nil_iff.2 fun d hd => ?_
    rw [(joins_iff hs (List.mem_cons_of_mem _ hd)).2 ⟨hd, hjoins d hd⟩]
    exact Bool.false_ne_true
  have hlength : (set.exposed p name).length ≤ 1 := by
    rw [exposed, h, ← List.singleton_append, List.filter_append, hothers, List.append_nil]
    exact List.length_filter_le _ _
  unfold Contested
  omega

/-- If none of them does, the name is contested by all that stay public. -/
theorem exposed_of_not_joins (h : set.claimants name = first :: others)
    (hjoins : ∀ d ∈ others, ¬Plan.joins p first d) : set.exposed p name =
      (set.claimants name).filter fun d => d.type.flags.isPublic && !p.selects d := by
  have hs := symbol_of_claimants h
  refine List.filter_congr fun d hd => ?_
  rw [h] at hd
  have hapart : set.joins p d = false := by
    rw [Bool.eq_false_iff, Ne, joins_iff hs hd]
    exact fun hjoined => hjoins d hjoined.1 hjoined.2
  rw [hapart, Bool.not_false, Bool.true_and]

end ModuleSet

namespace Plan

open ModuleSet

variable {set : ModuleSet} {p : Policy} {name : String} {first : Declaration} {others : List Declaration}
  {log : Log} {plan : Plan}

/-- The plan says of a type that becomes part of the first one of its name. -/
theorem placement?_of_joins (hbuild : ((build set (.ofSet set) p).run.run log).1 = .ok plan)
    (h : set.claimants name = first :: others) {d : Declaration} (hd : d ∈ others)
    (hjoins : joins p first d) : plan.placement? d.origin = some (.into first.origin) := by
  obtain ⟨xs, decisions, between, after, hplaced, hplacements⟩ := exists_placedFor hbuild
  have hmem : (d.origin, first.origin) ∈ mergedIn set p :=
    mem_mergedIn.2 ⟨_, symbol_of_claimants h, d, List.mem_filter.2 ⟨hd, hjoins⟩, rfl, rfl⟩
  rw [placement?, hplacements, lookup_eq_some_iff_mem (hplaced.once.nodup_iff.2 set.nodup_origins)]
  exact List.mem_append_right _ (List.mem_map.2 ⟨_, hmem, rfl⟩)

/-- A type that becomes part of another one becomes part of the first one of its name. -/
theorem joins_of_placement? (hbuild : ((build set (.ofSet set) p).run.run log).1 = .ok plan)
    (h : set.claimants name = first :: others) {d : Declaration} (hd : d ∈ others) {target : Origin}
    (hplace : plan.placement? d.origin = some (.into target)) : joins p first d := by
  obtain ⟨xs, decisions, between, after, hplaced, hplacements⟩ := exists_placedFor hbuild
  have hs := symbol_of_claimants h
  have hmem := mem_declarations_of_mem hs (List.mem_cons_of_mem _ hd)
  obtain ⟨s, hs', hjoined, -⟩ := hplaced.exists_joined hplacements hmem hplace
  obtain ⟨hothers, hjoins⟩ := List.mem_filter.1 hjoined
  have hsame := set.groups.eq_of_name_eq hs' hs
    ((set.groups.name_eq hs' (List.mem_cons_of_mem _ hothers)).symm.trans
      (set.groups.name_eq hs (List.mem_cons_of_mem _ hd)))
  rw [hsame] at hjoins
  exact hjoins

/-- A type can become one with itself exactly if it fits itself, so types that are declared in the same
words under one name become one under union merging exactly if the first one fits itself. Then no conflict
tells of their name. Otherwise each of them stays a type of its own, unless their namespace is shared,
and if two of them stay public there is no plan. -/
theorem build_alike (hclaimants : set.claimants name = first :: others) (hunion : p.options.unionMerge)
    (halike : ∀ d ∈ others, TypeDef.Alike first.module d.module first.type d.type) (log : Log) :
    (∀ m t, TypeDef.unites m m t t ↔ TypeDef.FitsItself m t) ∧
    (first.type.NamesApart → (TypeDef.FitsItself first.module first.type ↔ ∀ u ∈ first.type.within,
      TypeDef.MembersAgree (.ofModule first.module) (.ofModule first.module) u u)) ∧
    (TypeDef.FitsItself first.module first.type →
      (∀ plan, ((build set (.ofSet set) p).run.run log).1 = .ok plan →
        ∀ d ∈ others, plan.placement? d.origin = some (.into first.origin)) ∧
      ∀ fault, ((build set (.ofSet set) p).run.run log).1 = .error fault →
        ∃ other a b, other ≠ name ∧ fault = .conflict other a b) ∧
    (¬TypeDef.FitsItself first.module first.type → p.sharesNamespace first.type.namespaceName = false →
      (∀ plan, ((build set (.ofSet set) p).run.run log).1 = .ok plan →
        ∀ d ∈ others, ∀ target, plan.placement? d.origin ≠ some (.into target)) ∧
      (2 ≤ ((first :: others).filter fun d => d.type.flags.isPublic && !p.selects d).length →
        ∃ other a b, ((build set (.ofSet set) p).run.run log).1 = .error (.conflict other a b))) := by
  have hunites : ∀ d ∈ others, TypeDef.unites first.module d.module first.type d.type =
      TypeDef.unites first.module first.module first.type first.type :=
    fun d hd => TypeDef.unites_alike d.type (halike d hd) first.type
  refine ⟨TypeDef.unites_self_iff, TypeDef.fitsItself_iff, fun hfits => ?_, fun hfits hshared => ?_⟩
  · have hjoins : ∀ d ∈ others, joins p first d := by
      intro d hd
      rw [joins, hunites d hd, hunion, (TypeDef.unites_self_iff ..).2 hfits, Bool.and_self, Bool.or_true]
    refine ⟨fun plan hplan d hd => placement?_of_joins hplan hclaimants hd (hjoins d hd), ?_⟩
    intro fault hfault
    obtain ⟨d, a, b, rest, hd, -, rfl⟩ := exists_conflict_of_build hfault
    have hfound := List.find?_some hd
    have hcontested : set.Contested p d.name := of_decide_eq_true hfound
    refine ⟨d.name, a.module.name, b.module.name, ?_, rfl⟩
    rintro rfl
    exact not_contested_of_joins hclaimants hjoins hcontested
  · have hjoins : ∀ d ∈ others, ¬joins p first d := by
      intro d hd hjoins
      rw [joins, hunites d hd, hshared, Bool.false_or, Bool.and_eq_true] at hjoins
      exact hfits ((TypeDef.unites_self_iff ..).1 hjoins.2)
    refine ⟨fun plan hplan d hd target hplace => ?_, fun htwo => ?_⟩
    · exact hjoins d hd (joins_of_placement? hplan hclaimants hd hplace)
    · have hcontested : set.Contested p name := by
        rw [Contested, exposed_of_not_joins hclaimants hjoins, hclaimants]
        exact htwo
      obtain ⟨d, a, b, rest, -, -, hresult⟩ := build_conflict hcontested
      exact ⟨_, _, _, hresult log⟩

/-! ## A class with two indexers -/

/-- A class with two properties of different types, which methods with a parameter read. -/
def tableType (second : String) : TypeDef :=
  let getter (token : Token) (name : String) (type : Primitive) : Method :=
    ⟨token, "get_" ++ name, ⟨0x6⟩, ⟨true, 0, .primitive type, [.primitive type]⟩, none, []⟩
  let indexer (token getter : Token) (name : String) (type : Primitive) : Property :=
    ⟨token, name, .primitive type, some getter, none, []⟩
  ⟨⟨0x02000001⟩, "N", "Table", ⟨0x1⟩, none, [], [], [],
    [getter ⟨0x06000001⟩ "Item" .i4, getter ⟨0x06000002⟩ second .string],
    [indexer ⟨0x17000001⟩ ⟨0x06000001⟩ "Item" .i4, indexer ⟨0x17000002⟩ ⟨0x06000002⟩ second .string],
    [], [], []⟩

/-- A module with nothing but this class. -/
def tableModule (name second : String) : LoadedModule :=
  ⟨⟨name ++ ".dll"⟩,
    { Module.ofIdentity (.ofName name ⟨1, 0, 0, 0⟩) .dll with types := [tableType second] }⟩

/-- Two modules that declare the class in the same words. -/
def tables (second : String) : ModuleSet :=
  { primary := tableModule "A" second, others := [tableModule "B" second]
    references := [], attributeSource := none }

/-- Two indexers of different types keep the class from fitting itself, so that its two declarations are
a conflict. -/
theorem build_alike_fails_indexers :
    Relocation.unionPolicy.options.unionMerge ∧ Relocation.unionPolicy.options.sharedNamespaces = [] ∧
    TypeDef.unites (tableModule "A" "Item").module (tableModule "A" "Item").module (tableType "Item")
      (tableType "Item") = false ∧
    TypeDef.unites (tableModule "A" "Item").module (tableModule "B" "Item").module (tableType "Item")
      (tableType "Item") = false ∧
    ((build (tables "Item") (.ofSet (tables "Item")) Relocation.unionPolicy).run.run []).1 =
      .error (.conflict "N.Table" "A" "B") := by
  refine ⟨rfl, rfl, by decide +kernel, by decide +kernel, by decide +kernel⟩

/-- With names of their own the two properties do no harm. -/
theorem build_alike_names : ∃ plan,
    ((build (tables "Text") (.ofSet (tables "Text")) Relocation.unionPolicy).run.run []).1 = .ok plan ∧
      plan.placement? ⟨1, 0⟩ = some (.into ⟨0, 0⟩) := by
  have hok : ((build (tables "Text") (.ofSet (tables "Text")) Relocation.unionPolicy).run.run
      []).1.isOk := by decide +kernel
  obtain ⟨plan, hplan⟩ := exists_eq_ok hok
  have hclaimants : (tables "Text").claimants "N.Table" =
      [⟨⟨0, 0⟩, (tableModule "A" "Text").module, tableType "Text"⟩,
        ⟨⟨1, 0⟩, (tableModule "B" "Text").module, tableType "Text"⟩] := rfl
  have halike : TypeDef.Alike (tableModule "A" "Text").module (tableModule "B" "Text").module
      (tableType "Text") (tableType "Text") :=
    .mk rfl rfl rfl rfl rfl (by decide +kernel) .nil
  have hunion : Relocation.unionPolicy.options.unionMerge := rfl
  obtain ⟨hself, -, hinto, -⟩ :=
    build_alike hclaimants hunion (List.forall_mem_singleton.2 halike) []
  have hfits := (hself (tableModule "A" "Text").module (tableType "Text")).1 (by decide +kernel)
  exact ⟨plan, hplan, (hinto hfits).1 plan hplan _ List.mem_cons_self⟩

end Plan

end ModuleLinker
