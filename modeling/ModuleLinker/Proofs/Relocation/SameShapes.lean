import ModuleLinker.Proofs.Relocation.Counterparts
import ModuleLinker.Proofs.Relocation.Rewriting
import ModuleLinker.Proofs.Relocation.Own

namespace ModuleLinker

/-! # Relocations with the same shapes

Two relocations that end up with the same shapes number them in the same way. A type that has landed in
its own shape in both of them, whatever its module is, then has the same counterparts.
-/

/-! ## Types that are taken in again

A shape that has taken in a type is left as it is by the same type of a module with the same names: all
its members are redirected, and none of its interfaces and attributes is new.
-/

namespace NamedAttribute

variable {repeats : String → Bool} {kept more : List (String × List AttributeValue × List NamedArgument)}
  {a : String × List AttributeValue × List NamedArgument}

/-- What cannot stand beside some attributes cannot stand beside more of them. -/
theorem standsBeside_of_append (h : standsBeside repeats (kept ++ more) a) : standsBeside repeats kept a := by
  simp only [standsBeside, List.filter_append, List.any_append, List.isEmpty_iff, List.append_eq_nil_iff,
    Bool.and_eq_true, Bool.not_eq_true', Bool.or_eq_true, Bool.or_eq_false_iff] at h ⊢
  exact ⟨h.1.1, h.2.imp And.left id⟩

/-- An attribute cannot stand beside itself. -/
theorem not_standsBeside_self : ¬ standsBeside repeats (kept ++ [a]) a := by
  simp [standsBeside]

/-- None of the attributes that were gone through can stand beside those that were kept. -/
theorem not_standsBeside_accept {view : α → String × List AttributeValue × List NamedArgument} {xs : List α}
    {x : α} (hx : x ∈ xs) :
    ¬ standsBeside repeats ((accept (standsBeside repeats) view xs).map view) (view x) := by
  induction xs using List.reverseRecOn with
  | nil => exact absurd hx List.not_mem_nil
  | append_singleton xs y ih =>
    rw [accept_append_singleton]
    rcases List.mem_append.1 hx with hmem | hlast
    · split
      · rw [List.map_append]
        exact fun h => ih hmem (standsBeside_of_append h)
      · exact ih hmem
    · obtain rfl := List.mem_singleton.1 hlast
      split
      case isTrue =>
        rw [List.map_append]
        exact not_standsBeside_self
      case isFalse hrefused => exact hrefused

end NamedAttribute

namespace Shape

open Shaping

variable {l : Linkage} {source source' : Nat}

theorem attributeContent_congr (hnames : l.names source' = l.names source) (a : Attribute) :
    attributeContent l ⟨source', a⟩ = attributeContent l ⟨source, a⟩ := by
  rw [attributeContent, attributeContent, hnames]

/-- The members of a type have the keys of those that its shape has filed. -/
theorem mem_filed_ownParts {t : TypeDef} {x : Member} (hx : x ∈ t.members) :
    x.key (l.names source) ∈ (ownParts l source t).members.map Prod.fst := by
  obtain ⟨y, hy, hkey⟩ : ∃ y ∈ firsts (Member.key (l.names source)) [] t.members,
      y.key (l.names source) = x.key (l.names source) := exists_mem_firsts hx List.not_mem_nil
  rw [ownParts, List.map_map, ← hkey]
  exact List.mem_map.2 ⟨y, hy, rfl⟩

theorem mem_interfaceNames_ownParts {t : TypeDef} {i : Token} (hi : i ∈ t.interfaces) :
    (l.names source).name i ∈ (ownParts l source t).interfaceNames := by
  obtain ⟨j, hj, hname⟩ : ∃ j ∈ firsts (l.names source).name [] t.interfaces,
      (l.names source).name j = (l.names source).name i := exists_mem_firsts hi List.not_mem_nil
  rw [ownParts, List.mem_reverse, ← hname]
  exact List.mem_map_of_mem hj

/-- Interfaces whose names have been seen change nothing. -/
theorem foldl_takeInterface_of_seen {names : NameTable} {tokens : List Token} {s : Shape}
    (h : firsts names.name s.interfaceNames tokens = []) :
    tokens.foldl (takeInterface source names) s = s := by
  rw [foldl_takeInterface, h]
  cases s
  simp

/-- Attributes that cannot stand beside those of a shape change nothing. -/
theorem takeAttributes_again (hdrops : ∀ name, l.policy.drops name = false) {s : Shape} {as : List Attribute}
    (has : ∀ a ∈ as, ¬ NamedAttribute.standsBeside (NamedAttribute.repeats l.set l.policy)
      (s.attributes.map (attributeContent l)) (attributeContent l ⟨source', a⟩)) :
    Yields (as.foldlM (fun s a => liftM (takeAttribute l source' s a)) s) fun s' _ => s' = s := by
  refine Yields.foldlM (motive := fun _ s' _ => s' = s) rfl ?_
  rintro done a ha _ new rfl
  refine (Yields.lift (takeAttribute_eq hdrops _ a)).mono ?_
  rintro _ _ ⟨rfl, -⟩
  rw [if_neg (has a ha)]

/-- The parts of a type that a shape has taken in leave it as it is. -/
theorem takeParts_again (hset : l.set.WellNumbered) (hdrops : ∀ name, l.policy.drops name = false)
    (hnames : l.names source' = l.names source) {t : TypeDef} (ht : l.set.Declares ⟨source', t⟩) :
    Yields (takeParts l source' t (own l source t)) fun s _ => s = own l source t := by
  have hmembers : (own l source t).members = (ownParts l source t).members := by rw [own_eq]
  have hinterfaces : (own l source t).interfaceNames = (ownParts l source t).interfaceNames := by
    rw [own_eq]
  have hattributes : (own l source t).attributes = ownAttributes l source t.attributes := by
    rw [own_eq]
    rfl
  have hkeys : firsts (Member.key (l.names source')) ((own l source t).members.map Prod.fst) t.members = [] := by
    refine firsts_eq_nil fun x hx => ?_
    rw [hmembers, hnames]
    exact mem_filed_ownParts hx
  have hseen : firsts (l.names source').name (own l source t).interfaceNames t.interfaces = [] := by
    refine firsts_eq_nil fun i hi => ?_
    rw [hinterfaces, hnames]
    exact mem_interfaceNames_ownParts hi
  unfold takeParts
  dsimp only
  rw [TypeDef.memberKeys_eq]
  refine (takeMembers_keep hset ht (fun _ h => h) (own l source t)).bind ?_
  rintro _ _ rfl
  rw [hkeys, List.foldl_nil, foldl_takeInterface_of_seen hseen]
  refine takeAttributes_again hdrops fun a ha => ?_
  rw [attributeContent_congr hnames, hattributes]
  exact NamedAttribute.not_standsBeside_accept (List.mem_map_of_mem ha)

/-- Of types with different names each is found at its place by its name. -/
theorem find?_own (l : Linkage) (source : Nat) {ts : List TypeDef} (hnodup : (ts.map TypeDef.name).Nodup)
    {t : TypeDef} (ht : t ∈ ts) : ∃ index,
      ((ts.map (own l source)).zipIdx.find? fun (s, _) => s.name == t.name) =
        some (own l source t, index) ∧
      (ts.map (own l source)).set index (own l source t) = ts.map (own l source) := by
  rcases hfind : (ts.map (own l source)).zipIdx.find? fun (s, _) => s.name == t.name with _ | ⟨s, index⟩
  · obtain ⟨i, hi, rfl⟩ := List.getElem_of_mem ht
    have hmem : (own l source ts[i], i) ∈ (ts.map (own l source)).zipIdx := by
      rw [List.mk_mem_zipIdx_iff_getElem?, List.getElem?_map, List.getElem?_eq_getElem hi, Option.map_some]
    have hother : ¬ ((own l source ts[i]).name == ts[i].name) = true :=
      List.find?_eq_none.1 hfind _ hmem
    rw [name_own] at hother
    exact absurd (beq_self_eq_true _) hother
  · have hname : s.name = t.name := by simpa using List.find?_some hfind
    have hget := List.mk_mem_zipIdx_iff_getElem?.1 (List.mem_of_find?_eq_some hfind)
    rw [List.getElem?_map] at hget
    obtain ⟨u, hu, rfl⟩ := Option.map_eq_some_iff.1 hget
    rw [name_own] at hname
    obtain rfl := List.inj_on_of_nodup_map hnodup (List.mem_of_getElem? hu) ht hname
    refine ⟨index, hfind, ?_⟩
    rw [← List.map_set]
    obtain ⟨hlt, hval⟩ := List.getElem?_eq_some_iff.1 hu
    rw [← hval, List.set_getElem_self]

mutual

/-- A type leaves the shape of the same type as it is. -/
theorem absorb_again (hset : l.set.WellNumbered) (hdrops : ∀ name, l.policy.drops name = false)
    (hnames : l.names source' = l.names source) (t : TypeDef)
    (ht : ∀ u ∈ t.within, l.set.Declares ⟨source', u⟩) (hapart : t.NamesApart) :
    Yields (absorb l source' (own l source t) t) fun s _ => s = own l source t := by
  rcases t with ⟨token, namespaceName, name, flags, base, interfaces, genericParams, fields, methods,
    properties, events, nested, attributes⟩
  unfold TypeDef.NamesApart at hapart
  rw [TypeDef.within_eq, List.forall_mem_cons] at ht hapart
  have htypes : ∀ t ∈ nested, ∀ u ∈ t.within, l.set.Declares ⟨source', u⟩ :=
    fun t ht' u hu => ht.2 u (List.mem_flatMap.2 ⟨t, ht', hu⟩)
  have hinner : ∀ t ∈ nested, t.NamesApart :=
    fun t ht' u hu => hapart.2 u (List.mem_flatMap.2 ⟨t, ht', hu⟩)
  rw [absorb]
  refine (takeParts_again hset hdrops hnames ht.1).bind ?_
  rintro _ _ rfl
  rw [own_eq]
  dsimp only
  refine (absorbNested_again hset hdrops hnames nested hapart.1 (fun _ h => h) htypes hinner).bind ?_
  rintro _ _ rfl
  exact Yields.pure rfl

theorem absorbNested_again (hset : l.set.WellNumbered) (hdrops : ∀ name, l.policy.drops name = false)
    (hnames : l.names source' = l.names source) (ts : List TypeDef) {all : List TypeDef}
    (hnodup : (all.map TypeDef.name).Nodup) (hsubset : ∀ t ∈ ts, t ∈ all)
    (hts : ∀ t ∈ ts, ∀ u ∈ t.within, l.set.Declares ⟨source', u⟩) (hapart : ∀ t ∈ ts, t.NamesApart) :
    Yields (absorbNested l source' (all.map (own l source)) ts) fun shapes _ =>
      shapes = all.map (own l source) := by
  cases ts with
  | nil => exact Yields.pure rfl
  | cons t ts =>
    obtain ⟨ht, hrest⟩ := List.forall_mem_cons.1 hts
    obtain ⟨hname, hnamesRest⟩ := List.forall_mem_cons.1 hapart
    obtain ⟨hmem, hsubsetRest⟩ := List.forall_mem_cons.1 hsubset
    obtain ⟨index, hfind, hset'⟩ := find?_own l source hnodup hmem
    rw [absorbNested, hfind]
    dsimp only
    refine (Yields.redirect _ _).bind fun _ _ _ => ?_
    refine (absorb_again hset hdrops hnames t ht hname).bind ?_
    rintro _ _ rfl
    rw [hset']
    exact absorbNested_again hset hdrops hnames ts hnodup hsubsetRest hrest hnamesRest

end

/-! ### All types -/

variable {plan : Plan}

/-- Replacing the shape of a place by itself changes nothing. -/
theorem update_self {shapes : PlacedShapes} (hnodup : (shapes.map Prod.fst).Nodup) {target : Origin}
    {s : Shape} (h : shapes.lookup target = some s) : update target s shapes = shapes := by
  rw [lookup_eq_some_iff_mem hnodup] at h
  rw [update]
  refine (List.map_congr_left ?_).trans (List.map_id shapes)
  rintro ⟨origin, shape⟩ hmem
  dsimp only
  split
  case isTrue heq =>
    subst heq
    rw [id, (Prod.mk.inj (List.inj_on_of_nodup_map hnodup h hmem rfl)).2]
  case isFalse => rfl

/-- A type that becomes part of the same type leaves all shapes as they are. -/
theorem placeDeclaration_again (hset : l.set.WellNumbered) (hdrops : ∀ name, l.policy.drops name = false)
    {d : Declaration} (hd : d ∈ l.set.declarations) (hapart : d.type.NamesApart)
    (hnames : l.names d.origin.module = l.names source) {target : Origin}
    (hplace : plan.placement? d.origin = some (.into target)) {shapes : PlacedShapes}
    (hnodup : (shapes.map Prod.fst).Nodup) (htarget : shapes.lookup target = some (own l source d.type)) :
    Settles (placeDeclaration l plan shapes d) fun shapes' _ => shapes' = shapes := by
  have htypes : ∀ u ∈ d.type.within, l.set.Declares ⟨d.origin.module, u⟩ :=
    fun u hu => ModuleSet.declares_of_mem_declarations hd hu
  unfold placeDeclaration
  dsimp only
  rw [hplace]
  dsimp only
  rw [htarget]
  dsimp only
  refine (Settles.lift (Yields.redirect _ _)).bind fun _ _ _ => ?_
  refine (Settles.lift (absorb_again hset hdrops hnames d.type htypes hapart)).bind ?_
  rintro _ _ rfl
  exact Settles.pure (update_self hnodup htarget)

end Shape

namespace Shape

variable {l l' k : Linkage} {source source' o : Nat} {rs rs' : List Redirect}

/-! ## Counterparts of what has landed -/

/-- A member that has landed in the own shape of its type in two ways goes to one member. -/
theorem member_same {t : TypeDef} (hnames : l.names source = k.names o) (hnames' : l'.names source' = k.names o)
    (h : ReceivesMembers l rs source t (own k o t)) (h' : ReceivesMembers l' rs' source' t (own k o t))
    {x : Member} (hx : x ∈ t.members) : ∃ kept ∈ (own k o t).filed,
      GoesTo rs ⟨source, x.token⟩ kept ∧ GoesTo rs' ⟨source', x.token⟩ kept := by
  have hnodup : ((own k o t).members.map Prod.fst).Nodup := by
    rw [own_eq]
    dsimp only [ownParts]
    rw [List.map_map]
    exact (nodup_map_firsts _ [] t.members).1
  obtain ⟨kept, hkept, hgoes⟩ := h x hx
  obtain ⟨kept', hkept', hgoes'⟩ := h' x hx
  rw [hnames] at hkept
  rw [hnames'] at hkept'
  obtain rfl : kept = kept' := (Prod.mk.inj (List.inj_on_of_nodup_map hnodup hkept hkept' rfl)).2
  exact ⟨kept, List.mem_cons_of_mem _ (List.mem_map_of_mem hkept), hgoes, hgoes'⟩

/-- A nested type that has landed in a shape of its name has landed in its own one. -/
theorem receives_named {all : List TypeDef} (hnodup : (all.map TypeDef.name).Nodup) {t : TypeDef}
    (ht : t ∈ all)
    (h : ∃ n ∈ all.map (own k o), n.name = t.name ∧ Receives l rs source t n) :
    Receives l rs source t (own k o t) := by
  obtain ⟨n, hn, hname, hreceives⟩ := h
  obtain ⟨u, hu, rfl⟩ := List.mem_map.1 hn
  rw [name_own] at hname
  obtain rfl := List.inj_on_of_nodup_map hnodup hu ht hname
  exact hreceives

mutual

/-- What a type defines goes to the same in the own shape of the type, in whatever way it has landed. -/
theorem defined_same (hnames : l.names source = k.names o) (hnames' : l'.names source' = k.names o)
    (t : TypeDef) (hapart : t.NamesApart) (h : Receives l rs source t (own k o t))
    (h' : Receives l' rs' source' t (own k o t)) :
    ∀ u ∈ t.within, ∀ token ∈ u.definedTokens, ∃ kept ∈ (own k o t).filedWithin,
      GoesTo rs ⟨source, token⟩ kept ∧ GoesTo rs' ⟨source', token⟩ kept := by
  rcases t with ⟨token, namespaceName, name, flags, base, interfaces, genericParams, fields, methods,
    properties, events, nested, attributes⟩
  obtain ⟨hself, hmembers, hnested⟩ := receives_iff.1 h
  obtain ⟨hself', hmembers', hnested'⟩ := receives_iff.1 h'
  unfold TypeDef.NamesApart at hapart
  rw [TypeDef.within_eq, List.forall_mem_cons] at hapart
  have hinner : ∀ t ∈ nested, t.NamesApart :=
    fun t ht u hu => hapart.2 u (List.mem_flatMap.2 ⟨t, ht, hu⟩)
  rw [own_eq] at hnested hnested'
  have hall := definedAll_same hnames hnames' nested hapart.1 (fun _ h => h) hinner hnested hnested'
  rw [TypeDef.within_eq, List.forall_mem_cons]
  rw [filedWithin_eq]
  refine ⟨fun token htoken => ?_, fun u hu token htoken => ?_⟩
  · rw [TypeDef.definedTokens_eq] at htoken
    rcases List.mem_cons.1 htoken with rfl | hmember
    · exact ⟨_, List.mem_append_left _ List.mem_cons_self, hself, hself'⟩
    · obtain ⟨x, hx, rfl⟩ := List.mem_map.1 hmember
      obtain ⟨kept, hkept, hgoes⟩ := member_same hnames hnames' hmembers hmembers' hx
      exact ⟨kept, List.mem_append_left _ hkept, hgoes⟩
  · rw [TypeDef.withinAll_eq] at hall
    obtain ⟨kept, hkept, hgoes⟩ := hall u hu token htoken
    refine ⟨kept, List.mem_append_right _ ?_, hgoes⟩
    rw [own_eq]
    exact hkept

theorem definedAll_same (hnames : l.names source = k.names o) (hnames' : l'.names source' = k.names o)
    (ts : List TypeDef) {all : List TypeDef} (hnodup : (all.map TypeDef.name).Nodup)
    (hsubset : ∀ t ∈ ts, t ∈ all) (hapart : ∀ t ∈ ts, t.NamesApart)
    (h : ReceivesAll l rs source ts (all.map (own k o)))
    (h' : ReceivesAll l' rs' source' ts (all.map (own k o))) :
    ∀ u ∈ TypeDef.withinAll ts, ∀ token ∈ u.definedTokens, ∃ kept ∈ filedAll (all.map (own k o)),
      GoesTo rs ⟨source, token⟩ kept ∧ GoesTo rs' ⟨source', token⟩ kept := by
  cases ts with
  | nil => exact fun u hu => absurd hu List.not_mem_nil
  | cons t ts =>
    obtain ⟨hmem, hsubsetRest⟩ := List.forall_mem_cons.1 hsubset
    obtain ⟨ht, hapartRest⟩ := List.forall_mem_cons.1 hapart
    have hfirst := receives_named hnodup hmem h.1
    have hfirst' := receives_named hnodup hmem h'.1
    rw [TypeDef.withinAll]
    refine List.forall_mem_append.2 ⟨fun u hu token htoken => ?_, ?_⟩
    · obtain ⟨kept, hkept, hgoes⟩ := defined_same hnames hnames' t ht hfirst hfirst' u hu token htoken
      refine ⟨kept, ?_, hgoes⟩
      rw [filedAll_eq]
      exact List.mem_flatMap.2 ⟨_, List.mem_map_of_mem hmem, hkept⟩
    · exact definedAll_same hnames hnames' ts hnodup hsubsetRest hapartRest h.2 h'.2

end

/-! ## Numbers -/

variable {plan : Plan} {placed : PlacedShapes}

/-- Redirecting leaves the numbers of what is filed as they are. -/
theorem Landed.get?_filed (h : Landed l plan l.set.declarations placed rs) (hset : l.set.Identified)
    {sub₀ sub : Substitution} (hsub : rs.foldlM applyRedirect sub₀ = .ok sub) {k : SourceToken}
    (hk : k ∈ filedAll (placed.map Prod.snd)) : sub.get? k = sub₀.get? k :=
  (applyRedirects_ok (fun r hr => h.not_dropped hset (h.moved.kept r hr))
    (fun r hr => hset.unshared (h.mem_keys_of_filed (h.moved.kept r hr)))
    (h.nodup_dropped hset) hsub).1 k (h.not_dropped hset hk)

/-! ## Writing -/

variable {sub sub' : Substitution}

mutual

/-- The own shape of a type is written in the same way if the tokens of its module stand for the same. -/
theorem write_own_congr (hresolve : sub'.resolve o = sub.resolve o) (hretained : retained l' o = retained l o)
    (t : TypeDef) : write l' sub' (own k o t) = write l sub (own k o t) := by
  rcases t with ⟨token, namespaceName, name, flags, base, interfaces, genericParams, fields, methods,
    properties, events, nested, attributes⟩
  have hattributes : ∀ a ∈ ownAttributes k o attributes, a.source = o := by
    intro a ha
    rw [ownAttributes_eq] at ha
    obtain ⟨a', -, rfl⟩ := List.mem_map.1 ha
    rfl
  have hmap {α β : Type} {xs : List α} {f g : Sourced α → Except Fault β}
      (h : ∀ x, f ⟨o, x⟩ = g ⟨o, x⟩) : (xs.map (Sourced.mk o)).mapM f = (xs.map (Sourced.mk o)).mapM g := by
    refine mapM_list_congr fun x hx => ?_
    obtain ⟨x, -, rfl⟩ := List.mem_map.1 hx
    exact h x
  rw [own, write, write]
  dsimp only [ownParts, ofType]
  rw [writeAll_own_congr hresolve hretained nested, hresolve]
  refine congrArg₂ Bind.bind (hmap fun x => ?_) (funext fun fields => ?_)
  · rw [hresolve, hretained]
  refine congrArg₂ Bind.bind (hmap fun x => ?_) (funext fun methods => ?_)
  · rw [hresolve, hretained]
  refine congrArg₂ Bind.bind (hmap fun x => ?_) (funext fun properties => ?_)
  · rw [hresolve, hretained]
  refine congrArg₂ Bind.bind (hmap fun x => ?_) (funext fun events => ?_)
  · rw [hresolve, hretained]
  refine congrArg₂ Bind.bind (mapM_list_congr fun a ha => ?_) (funext fun attributes => ?_)
  · rw [hattributes a ha, hresolve]
  refine congrArg (_ >>= ·) (funext fun token => ?_)
  refine congrArg (_ >>= ·) (funext fun base => ?_)
  refine congrArg₂ Bind.bind (hmap fun i => ?_) rfl
  rw [hresolve]

theorem writeAll_own_congr (hresolve : sub'.resolve o = sub.resolve o)
    (hretained : retained l' o = retained l o) (ts : List TypeDef) :
    writeAll l' sub' (ownAll k o ts) = writeAll l sub (ownAll k o ts) := by
  cases ts with
  | nil => rfl
  | cons t ts =>
    rw [ownAll, writeAll, writeAll, write_own_congr hresolve hretained t,
      writeAll_own_congr hresolve hretained ts]

end

end Shape

end ModuleLinker
