import ModuleLinker.Proofs.Relocation.Gathering

namespace ModuleLinker

/-! # Where types land

Every type of the inputs lands in a shape: it starts the shape, or its token is redirected to that of
the type that did. Its members land in the same shape, and the types nested in it land in nested
shapes of their names. Nothing is asked of the tokens of the inputs here: whatever they are, each is
either filed once or redirected once.
-/

namespace Shape

open Shaping

/-! ## Filed tokens -/

/-- The tokens that a shape files: that of the type it started from, and those under its keys. -/
def filed (s : Shape) : List SourceToken := s.key :: s.members.map Prod.snd

/-- The tokens that a shape and those nested in it file. -/
def filedWithin (s : Shape) : List SourceToken := s.within.flatMap filed

/-- The tokens that shapes and those nested in them file. -/
def filedAll (shapes : List Shape) : List SourceToken := (withinAll shapes).flatMap filed

theorem filedWithin_eq (s : Shape) : s.filedWithin = s.filed ++ filedAll s.nested := by
  rw [filedWithin, within_eq, List.flatMap_cons, filedAll, withinAll_eq]

theorem filedAll_eq (shapes : List Shape) : filedAll shapes = shapes.flatMap filedWithin := by
  rw [filedAll, withinAll_eq, List.flatMap_assoc]
  rfl

theorem filedAll_append_singleton (shapes : List Shape) (s : Shape) :
    filedAll (shapes ++ [s]) = filedAll shapes ++ s.filedWithin := by
  rw [filedAll_eq, filedAll_eq, List.flatMap_append, List.flatMap_singleton]

/-- A name and flags of its own do not matter to what a shape files. -/
theorem filedWithin_rename (s : Shape) (name : String) (flags : TypeFlags) :
    { s with name, flags }.filedWithin = s.filedWithin := by
  rw [filedWithin_eq, filedWithin_eq]
  rfl

theorem key_mem_filedAll {shapes : List Shape} {s : Shape} (h : s ∈ withinAll shapes) :
    s.key ∈ filedAll shapes :=
  List.mem_flatMap.2 ⟨s, h, List.mem_cons_self⟩

/-- The tokens of shapes of which one is set apart. -/
theorem filedAll_middle (before after : List Shape) (s : Shape) :
    (filedAll (before ++ s :: after)).Perm (filedAll (before ++ after) ++ s.filedWithin) := by
  simp only [filedAll_eq, List.flatMap_append, List.flatMap_cons, List.append_assoc]
  exact List.perm_append_comm.append_left _

/-- Between two states of shapes that file `before` and `after`, the tokens `added` came in: each was
filed, or redirected to one that is filed, and what was filed stays so. -/
structure Moved (before after added : List SourceToken) (new : List Redirect) : Prop where
  count : ∀ k, after.count k + (new.map Redirect.dropped).count k = before.count k + added.count k
  stays : before ⊆ after
  kept : ∀ r ∈ new, r.kept ∈ after

namespace Moved

variable {a b c x y : List SourceToken} {new more : List Redirect}

theorem refl (a : List SourceToken) : Moved a a [] [] := ⟨fun _ => rfl, fun _ h => h, nofun⟩

theorem trans (h : Moved a b x new) (h' : Moved b c y more) : Moved a c (x ++ y) (new ++ more) := by
  refine ⟨fun k => ?_, fun k hk => h'.stays (h.stays hk), List.forall_mem_append.2 ⟨?_, h'.kept⟩⟩
  · have hk := h.count k
    have hk' := h'.count k
    rw [List.map_append, List.count_append, List.count_append]
    omega
  · exact fun r hr => h'.stays (h.kept r hr)

/-- Other shapes do not matter, and neither does the order of tokens. -/
theorem beside {d e : List SourceToken} (h : Moved a b x new) (c : List SourceToken)
    (hd : d.Perm (c ++ a)) (he : e.Perm (c ++ b)) : Moved d e x new := by
  refine ⟨fun k => ?_, fun k hk => he.mem_iff.2 ?_, fun r hr => he.mem_iff.2 ?_⟩
  · have hk := h.count k
    rw [hd.count_eq, he.count_eq, List.count_append, List.count_append]
    omega
  · exact List.mem_append.2 ((List.mem_append.1 (hd.mem_iff.1 hk)).imp_right (h.stays ·))
  · exact List.mem_append_right c (h.kept r hr)

theorem file (a : List SourceToken) (t : SourceToken) : Moved a (a ++ [t]) [t] [] :=
  ⟨fun k => by rw [List.map_nil, List.count_nil, Nat.add_zero, List.count_append],
    List.subset_append_left a [t], nofun⟩

theorem drop {a : List SourceToken} (t : SourceToken) {kept : SourceToken} (hkept : kept ∈ a) :
    Moved a a [t] [⟨t, kept⟩] :=
  ⟨fun _ => rfl, fun _ h => h, List.forall_mem_singleton.2 hkept⟩

end Moved

/-! ## Landing -/

/-- Whether a token is kept or redirected to the one that is. -/
def GoesTo (rs : List Redirect) (t kept : SourceToken) : Prop := t = kept ∨ ⟨t, kept⟩ ∈ rs

theorem GoesTo.mono {rs rs' : List Redirect} (hrs : rs ⊆ rs') {t kept : SourceToken}
    (h : GoesTo rs t kept) : GoesTo rs' t kept :=
  h.imp_right (hrs ·)

/-- The members of a type have landed in a shape, each under its key. -/
def ReceivesMembers (l : Linkage) (rs : List Redirect) (source : Nat) (t : TypeDef) (s : Shape) : Prop :=
  ∀ x ∈ t.members, ∃ kept, (x.key (l.names source), kept) ∈ s.members ∧ GoesTo rs ⟨source, x.token⟩ kept

mutual

/-- A type has landed in a shape: its token, its members and the types nested in it. -/
def Receives (l : Linkage) (rs : List Redirect) (source : Nat) : TypeDef → Shape → Prop
  | t@⟨token, _, _, _, _, _, _, _, _, _, _, nested, _⟩, s =>
    GoesTo rs ⟨source, token⟩ s.key ∧ ReceivesMembers l rs source t s ∧ ReceivesAll l rs source nested s.nested

/-- Types have landed in shapes of their names. -/
def ReceivesAll (l : Linkage) (rs : List Redirect) (source : Nat) : List TypeDef → List Shape → Prop
  | [], _ => True
  | t :: rest, shapes =>
    (∃ n ∈ shapes, n.name = t.name ∧ Receives l rs source t n) ∧ ReceivesAll l rs source rest shapes

end

variable {l : Linkage} {rs rs' : List Redirect} {source : Nat}

theorem receives_iff {t : TypeDef} {s : Shape} : Receives l rs source t s ↔
    GoesTo rs ⟨source, t.token⟩ s.key ∧ ReceivesMembers l rs source t s ∧
      ReceivesAll l rs source t.nested s.nested := by
  cases t
  rw [Receives]

theorem receivesAll_iff {ts : List TypeDef} {shapes : List Shape} : ReceivesAll l rs source ts shapes ↔
    ∀ t ∈ ts, ∃ n ∈ shapes, n.name = t.name ∧ Receives l rs source t n := by
  induction ts with
  | nil => exact iff_of_true trivial nofun
  | cons t ts ih => rw [ReceivesAll, ih, List.forall_mem_cons]

theorem ReceivesMembers.mono (hrs : rs ⊆ rs') {t : TypeDef} {s s' : Shape} (hs : s.members ⊆ s'.members)
    (h : ReceivesMembers l rs source t s) : ReceivesMembers l rs' source t s' := by
  intro x hx
  obtain ⟨e, he, hgoes⟩ := h x hx
  exact ⟨e, hs he, hgoes.mono hrs⟩

mutual

/-- What has landed stays where it is when more tokens are redirected. -/
theorem Receives.mono (hrs : rs ⊆ rs') (t : TypeDef) {s : Shape} (h : Receives l rs source t s) :
    Receives l rs' source t s := by
  rcases t with ⟨token, namespaceName, name, flags, base, interfaces, genericParams, fields, methods,
    properties, events, nested, attributes⟩
  obtain ⟨htoken, hmembers, hnested⟩ := receives_iff.1 h
  exact receives_iff.2 ⟨htoken.mono hrs, hmembers.mono hrs (List.Subset.refl _),
    ReceivesAll.mono hrs nested hnested⟩

theorem ReceivesAll.mono (hrs : rs ⊆ rs') (ts : List TypeDef) {shapes : List Shape}
    (h : ReceivesAll l rs source ts shapes) : ReceivesAll l rs' source ts shapes := by
  cases ts with
  | nil => exact h
  | cons t ts =>
    obtain ⟨⟨n, hn, hname, ht⟩, hts⟩ := h
    exact ⟨⟨n, hn, hname, Receives.mono hrs t ht⟩, ReceivesAll.mono hrs ts hts⟩

end

/-- A shape that has taken in more: whatever has landed in it is there still. -/
structure Extends (s s' : Shape) : Prop extends SameHead s s' where
  members : s.members ⊆ s'.members
  nested : ∀ l rs source ts, ReceivesAll l rs source ts s.nested → ReceivesAll l rs source ts s'.nested

namespace Extends

theorem refl (s : Shape) : Extends s s :=
  ⟨⟨rfl, rfl, rfl, rfl⟩, List.Subset.refl _, fun _ _ _ _ h => h⟩

theorem trans {s s' s'' : Shape} (h : Extends s s') (h' : Extends s' s'') : Extends s s'' :=
  ⟨h.toSameHead.trans h'.toSameHead, List.Subset.trans h.members h'.members,
    fun l rs source ts hts => h'.nested l rs source ts (h.nested l rs source ts hts)⟩

theorem key_eq {s s' : Shape} (h : Extends s s') : s'.key = s.key := by
  rw [key, h.source, h.origin, key]

theorem receives {s s' : Shape} (h : Extends s s') {t : TypeDef} (ht : Receives l rs source t s) :
    Receives l rs source t s' := by
  obtain ⟨htoken, hmembers, hnested⟩ := receives_iff.1 ht
  exact receives_iff.2 ⟨h.key_eq ▸ htoken, hmembers.mono (List.Subset.refl _) h.members,
    h.nested _ _ _ _ hnested⟩

end Extends

/-- Each of the shapes is there still, and may have taken in more. -/
def ExtendsAll (shapes shapes' : List Shape) : Prop := ∀ n ∈ shapes, ∃ n' ∈ shapes', Extends n n'

namespace ExtendsAll

variable {shapes shapes' shapes'' : List Shape}

theorem trans (h : ExtendsAll shapes shapes') (h' : ExtendsAll shapes' shapes'') :
    ExtendsAll shapes shapes'' := by
  intro n hn
  obtain ⟨n', hn', hext⟩ := h n hn
  obtain ⟨n'', hn'', hext'⟩ := h' n' hn'
  exact ⟨n'', hn'', hext.trans hext'⟩

theorem receivesAll (h : ExtendsAll shapes shapes') {ts : List TypeDef}
    (hts : ReceivesAll l rs source ts shapes) : ReceivesAll l rs source ts shapes' := by
  rw [receivesAll_iff] at hts ⊢
  intro t ht
  obtain ⟨n, hn, hname, hholds⟩ := hts t ht
  obtain ⟨n', hn', hext⟩ := h n hn
  exact ⟨n', hn', hext.name.trans hname, hext.receives hholds⟩

theorem append (shapes new : List Shape) : ExtendsAll shapes (shapes ++ new) :=
  fun n hn => ⟨n, List.mem_append_left new hn, .refl n⟩

theorem replace {index : Nat} {found found' : Shape} (hget : shapes[index]? = some found)
    (h : Extends found found') : ExtendsAll shapes (shapes.set index found') := by
  intro n hn
  obtain ⟨j, hj⟩ := List.mem_iff_getElem?.1 hn
  by_cases heq : index = j
  · obtain rfl : found = n := Option.some.inj (hget.symm.trans (heq ▸ hj))
    exact ⟨found', List.mem_set (List.getElem?_eq_some_iff.1 hget).1 _, h⟩
  · exact ⟨n, List.mem_of_getElem? ((List.getElem?_set_ne heq).trans hj), .refl n⟩

end ExtendsAll

/-! ## What is in a shape -/

/-- Where the contents of a shape come from: the members are filed, and they, the interfaces and the
attributes are those of types of the inputs. -/
structure Drawn (set : ModuleSet) (s : Shape) : Prop where
  origin : set.Declares ⟨s.source, s.origin⟩
  parts : ∀ x ∈ s.parts, partKey x ∈ s.members.map Prod.snd
  declared : ∀ x ∈ s.parts, set.DeclaresMember x
  interfaces : ∀ i ∈ s.interfaces, ∃ t, set.Declares ⟨i.source, t⟩ ∧ i.value ∈ t.interfaces
  attributes : ∀ a ∈ s.attributes, ∃ t, set.Declares ⟨a.source, t⟩ ∧ a.value ∈ t.attributes

theorem drawn_ofType {set : ModuleSet} {t : TypeDef} (ht : set.Declares ⟨source, t⟩) :
    ∀ u ∈ (ofType source t).within, Drawn set u := by
  intro u hu
  obtain rfl := List.mem_singleton.1 hu
  exact ⟨ht, nofun, nofun, nofun, nofun⟩

/-! ## Taking in the parts of a type -/

variable {t : TypeDef}

theorem mem_pick {tokenOf : α → Token} {xs : List α} {token : Token} {x : Sourced α} :
    x ∈ pick source token tokenOf xs ↔ x.source = source ∧ x.value ∈ xs ∧ tokenOf x.value = token := by
  simp only [pick, List.mem_map, List.mem_filter, beq_iff_eq]
  constructor
  · rintro ⟨y, ⟨hy, rfl⟩, rfl⟩
    exact ⟨rfl, hy, rfl⟩
  · rintro ⟨rfl, hx, rfl⟩
    exact ⟨x.value, ⟨hx, rfl⟩, rfl⟩

/-- The members that are added are those of the type that have the token. -/
theorem mem_parts_addMember (source : Nat) (t : TypeDef) (token : Token) {s : Shape} {x : Sourced Member}
    (h : x ∈ (addMember source t token s).parts) :
    x ∈ s.parts ∨ (partKey x = ⟨source, token⟩ ∧ x.value ∈ t.members) := by
  unfold addMember at h
  split_ifs at h
  all_goals
    simp only [parts, List.map_append, List.mem_append, List.mem_map, mem_pick] at h ⊢
    grind [partKey, Sourced.map, Member.token, TypeDef.members]

/-- `s'` is `s` with one more token filed, that of a member of a type. -/
structure FiledOne (t : TypeDef) (key : MemberKey) (k : SourceToken) (s s' : Shape) : Prop
    extends SameHead s s' where
  nested : s'.nested = s.nested
  members : s'.members = s.members ++ [(key, k)]
  parts : ∀ x ∈ s'.parts, x ∈ s.parts ∨ (partKey x = k ∧ x.value ∈ t.members)
  interfaces : s'.interfaces = s.interfaces
  attributes : s'.attributes = s.attributes

theorem filedOne_addMember (source : Nat) (t : TypeDef) (key : MemberKey) (token : Token) (s : Shape) :
    FiledOne t key ⟨source, token⟩ s
      (addMember source t token { s with members := s.members ++ [(key, ⟨source, token⟩)] }) := by
  have hparts (x) (hx : x ∈ (addMember source t token
      { s with members := s.members ++ [(key, ⟨source, token⟩)] }).parts) :=
    mem_parts_addMember source t token hx
  unfold addMember at hparts ⊢
  split_ifs at hparts ⊢ <;> exact ⟨⟨rfl, rfl, rfl, rfl⟩, rfl, rfl, hparts, rfl, rfl⟩

namespace FiledOne

variable {set : ModuleSet} {key : MemberKey} {k : SourceToken} {s s' : Shape}

theorem drawn (h : FiledOne t key k s s') (ht : set.Declares ⟨k.source, t⟩) (hs : Drawn set s) :
    Drawn set s' := by
  refine ⟨?_, fun x hx => ?_, fun x hx => ?_, h.interfaces ▸ hs.interfaces,
    h.attributes ▸ hs.attributes⟩
  · rw [h.source, h.origin]
    exact hs.origin
  · rw [h.members, List.map_append, List.mem_append]
    refine (h.parts x hx).imp (hs.parts x) fun hnew => ?_
    rw [hnew.1]
    exact List.mem_singleton_self k
  · rcases h.parts x hx with hold | ⟨rfl, hmem⟩
    · exact hs.declared x hold
    · exact ⟨t, ht, hmem⟩

theorem moved (h : FiledOne t key k s s') : Moved s.filed s'.filed [k] [] := by
  have happend : s'.filed = s.filed ++ [k] := by
    rw [filed, filed, h.members, Shape.key, h.source, h.origin, List.map_append]
    rfl
  rw [happend]
  exact Moved.file _ _

end FiledOne

/-- A member is filed under its key, or redirected to the token that is. -/
theorem takeMember_lands {set : ModuleSet} (ht : set.Declares ⟨source, t⟩) (key : MemberKey)
    (token : Token) {s : Shape} (hs : Drawn set s) :
    Yields (takeMember source t s (key, token)) fun s' new =>
      SameHead s s' ∧ s'.nested = s.nested ∧ s.members ⊆ s'.members ∧ Drawn set s' ∧
        (∃ kept, (key, kept) ∈ s'.members ∧ GoesTo new ⟨source, token⟩ kept) ∧
        Moved s.filed s'.filed [⟨source, token⟩] new := by
  unfold takeMember
  dsimp only
  split
  case h_1 kept hlookup =>
    obtain ⟨before, after, hmembers, -⟩ := List.lookup_eq_some_iff.1 hlookup
    have hfiled : (key, kept) ∈ s.members := by simp [hmembers]
    refine (Yields.redirect _ _).bind ?_
    rintro _ _ rfl
    refine Yields.pure ⟨⟨rfl, rfl, rfl, rfl⟩, rfl, List.Subset.refl _, hs, ⟨_, hfiled, ?_⟩, ?_⟩
    · exact .inr List.mem_cons_self
    · exact Moved.drop _ (List.mem_cons_of_mem _ (List.mem_map_of_mem hfiled))
  case h_2 =>
    have hone := filedOne_addMember source t key token s
    refine Yields.pure ⟨hone.toSameHead, hone.nested, ?_, hone.drawn ht hs,
      ⟨⟨source, token⟩, ?_, .inl rfl⟩, hone.moved⟩
    · rw [hone.members]
      exact List.subset_append_left _ _
    · rw [hone.members]
      exact List.mem_append_right _ (List.mem_singleton_self _)

theorem append_no_attributes (s : Shape) : s = { s with attributes := s.attributes ++ [] } := by
  cases s
  rw [List.append_nil]

/-- Attributes that are taken are those of the type. -/
theorem takeAttribute_draws (l : Linkage) (source : Nat) (s : Shape) (a : Attribute) :
    (takeAttribute l source s a).Answers fun s' => ∃ more ⊆ [⟨source, a⟩],
      s' = { s with attributes := s.attributes ++ more } := by
  have hnone : ∃ more ⊆ [Sourced.mk source a], s = { s with attributes := s.attributes ++ more } :=
    ⟨[], List.nil_subset _, s.append_no_attributes⟩
  unfold takeAttribute
  dsimp only
  split
  · exact Logging.Answers.bind fun _ => .pure hnone
  · refine Logging.Answers.bind fun taken => ?_
    cases taken
    · exact .pure hnone
    · exact .pure ⟨_, List.Subset.refl _, rfl⟩

theorem takeAttributes_draw (l : Linkage) (source : Nat) (as : List Attribute) (s : Shape) :
    Yields (as.foldlM (fun s a => liftM (takeAttribute l source s a)) s) fun s' new =>
      (∃ more ⊆ as.map (Sourced.mk source), s' = { s with attributes := s.attributes ++ more }) ∧
        new = [] := by
  refine Yields.foldlM (motive := fun _ s' new =>
    (∃ more ⊆ as.map (Sourced.mk source), s' = { s with attributes := s.attributes ++ more }) ∧
      new = []) ⟨⟨[], List.nil_subset _, s.append_no_attributes⟩, rfl⟩ ?_
  rintro done a ha _ new ⟨⟨more, hmore, rfl⟩, rfl⟩
  refine (Yields.lift (takeAttribute_draws l source _ a)).mono ?_
  rintro _ _ ⟨⟨one, hone, rfl⟩, rfl⟩
  refine ⟨⟨more ++ one, List.append_subset.2 ⟨hmore, List.Subset.trans hone ?_⟩, by rw [List.append_assoc]⟩, rfl⟩
  exact List.cons_subset.2 ⟨List.mem_map_of_mem ha, List.nil_subset _⟩

/-- The parts of a type land in the shape that takes them in. -/
theorem takeParts_lands (ht : l.set.Declares ⟨source, t⟩) {s : Shape} (hs : Drawn l.set s) :
    Yields (takeParts l source t s) fun s' new =>
      SameHead s s' ∧ s'.nested = s.nested ∧ s.members ⊆ s'.members ∧ Drawn l.set s' ∧
        ReceivesMembers l new source t s' ∧
        Moved s.filed s'.filed (t.members.map fun x => ⟨source, x.token⟩) new := by
  unfold takeParts
  dsimp only
  have hmembers : Yields ((t.memberKeys (l.names source)).foldlM (takeMember source t) s)
      fun s' new => SameHead s s' ∧ s'.nested = s.nested ∧ s.members ⊆ s'.members ∧ Drawn l.set s' ∧
        (∀ p ∈ t.memberKeys (l.names source), ∃ kept, (p.1, kept) ∈ s'.members ∧
          GoesTo new ⟨source, p.2⟩ kept) ∧
        Moved s.filed s'.filed ((t.memberKeys (l.names source)).map fun p => ⟨source, p.2⟩) new := by
    refine Yields.foldlM (motive := fun done s' new => SameHead s s' ∧ s'.nested = s.nested ∧
      s.members ⊆ s'.members ∧ Drawn l.set s' ∧
      (∀ p ∈ done, ∃ kept, (p.1, kept) ∈ s'.members ∧ GoesTo new ⟨source, p.2⟩ kept) ∧
      Moved s.filed s'.filed (done.map fun p : MemberKey × Token => ⟨source, p.2⟩) new) ?_ ?_
    · exact ⟨⟨rfl, rfl, rfl, rfl⟩, rfl, List.Subset.refl _, hs, nofun, .refl _⟩
    · rintro done p - b new ⟨hhead, hnested, hsubset, hb, hdone, hmoved⟩
      refine (takeMember_lands ht p.1 p.2 hb).mono ?_
      rintro c more ⟨hhead', hnested', hsubset', hc, hp, hmoved'⟩
      refine ⟨hhead.trans hhead', hnested'.trans hnested, List.Subset.trans hsubset hsubset', hc, ?_, ?_⟩
      · refine List.forall_mem_append.2 ⟨fun q hq => ?_, List.forall_mem_singleton.2 ?_⟩
        · obtain ⟨kept, hkept, hgoes⟩ := hdone q hq
          exact ⟨kept, hsubset' hkept, hgoes.mono (List.subset_append_left new more)⟩
        · obtain ⟨kept, hkept, hgoes⟩ := hp
          exact ⟨kept, hkept, hgoes.mono (List.subset_append_right new more)⟩
      · rw [List.map_append]
        exact hmoved.trans hmoved'
  refine hmembers.bind ?_
  rintro s₁ new ⟨hhead, hnested, hsubset, hs₁, hheld, hmoved⟩
  rw [TypeDef.memberKeys_eq, List.forall_mem_map] at hheld
  rw [TypeDef.memberKeys_eq, List.map_map] at hmoved
  -- interfaces and attributes redirect nothing
  obtain ⟨seen, heq⟩ := takeInterfaces_eq source (l.names source) t.interfaces s₁
  rw [heq]
  refine (takeAttributes_draw l source t.attributes _).mono ?_
  rintro _ _ ⟨⟨more, hmore, rfl⟩, rfl⟩
  rw [List.append_nil]
  refine ⟨⟨hhead.source, hhead.origin, hhead.name, hhead.flags⟩, hnested, hsubset,
    ⟨?_, hs₁.parts, hs₁.declared, ?_, ?_⟩, hheld, hmoved⟩
  · exact hs₁.origin
  · refine List.forall_mem_append.2 ⟨hs₁.interfaces, List.forall_mem_map.2 fun i hi => ?_⟩
    exact ⟨t, ht, (firsts_sublist _ _ _).subset hi⟩
  · refine List.forall_mem_append.2 ⟨hs₁.attributes, fun a ha => ?_⟩
    obtain ⟨b, hb, rfl⟩ := List.mem_map.1 (hmore ha)
    exact ⟨t, ht, hb⟩

/-! ## Taking in a type with what is nested in it -/

mutual

/-- What is in a type lands in the shape that takes it in. -/
theorem absorb_lands (t : TypeDef) (ht : ∀ u ∈ t.within, l.set.Declares ⟨source, u⟩) {s : Shape}
    (hs : ∀ u ∈ s.within, Drawn l.set u) :
    Yields (absorb l source s t) fun s' new =>
      Extends s s' ∧ (∀ u ∈ s'.within, Drawn l.set u) ∧ ReceivesMembers l new source t s' ∧
        ReceivesAll l new source t.nested s'.nested ∧
        Moved s.filedWithin s'.filedWithin
          (t.members.map (fun x => ⟨source, x.token⟩) ++ t.nested.flatMap (TypeDef.keysFrom source))
          new := by
  rcases t with ⟨token, namespaceName, name, flags, base, interfaces, genericParams, fields, methods,
    properties, events, nested, attributes⟩
  obtain ⟨ht, htypes⟩ := TypeDef.forall_within_iff.1 ht
  obtain ⟨hs, hshapes⟩ := forall_within_iff.1 hs
  rw [absorb]
  refine (takeParts_lands ht hs).bind ?_
  rintro s₁ new ⟨hhead, hnested, hsubset, hs₁, hheld, hmoved⟩
  rw [hnested]
  refine (absorbNested_lands nested htypes hshapes).bind ?_
  rintro inner more ⟨hextends, hinner, hall, hmoved'⟩
  refine Yields.pure ⟨⟨⟨hhead.source, hhead.origin, hhead.name, hhead.flags⟩, hsubset, ?_⟩,
    forall_within_iff.2 ⟨⟨hs₁.origin, hs₁.parts, hs₁.declared, hs₁.interfaces, hs₁.attributes⟩, hinner⟩,
    ?_, ?_, ?_⟩
  · exact fun _ _ _ _ hts => hextends.receivesAll hts
  · rw [List.append_nil]
    exact hheld.mono (List.subset_append_left new more) (List.Subset.refl _)
  · rw [List.append_nil]
    exact ReceivesAll.mono (List.subset_append_right new more) nested hall
  · -- the shape files its own tokens first, and then the nested shapes theirs
    have hown := hmoved.beside (filedAll s.nested) (s.filedWithin_eq ▸ List.perm_append_comm)
      List.perm_append_comm
    rw [List.append_nil]
    refine hown.trans (hmoved'.beside s₁.filed (.refl _) ?_)
    rw [filedWithin_eq]
    exact .refl _

/-- Nested types land in shapes of their names. -/
theorem absorbNested_lands (ts : List TypeDef)
    (hts : ∀ t ∈ ts, ∀ u ∈ t.within, l.set.Declares ⟨source, u⟩) {shapes : List Shape}
    (hshapes : ∀ u ∈ withinAll shapes, Drawn l.set u) :
    Yields (absorbNested l source shapes ts) fun shapes' new =>
      ExtendsAll shapes shapes' ∧ (∀ u ∈ withinAll shapes', Drawn l.set u) ∧
        ReceivesAll l new source ts shapes' ∧
        Moved (filedAll shapes) (filedAll shapes') (ts.flatMap (TypeDef.keysFrom source)) new := by
  cases ts with
  | nil => exact Yields.pure ⟨fun n hn => ⟨n, hn, .refl n⟩, hshapes, trivial, .refl _⟩
  | cons t ts =>
    obtain ⟨ht, hts⟩ := List.forall_mem_cons.1 hts
    rw [absorbNested, List.flatMap_cons, TypeDef.keysFrom_eq]
    split
    case h_1 found index hfind =>
      -- there is a shape of that name, which takes the type in
      have hget : shapes[index]? = some found :=
        List.mem_zipIdx_iff_getElem?.1 (List.mem_of_find?_eq_some hfind)
      have hmem := List.mem_of_getElem? hget
      have hname : found.name = t.name := by simpa using List.find?_some hfind
      have hfound := forall_within_of_mem hshapes hmem
      refine (Yields.redirect _ _).bind ?_
      rintro _ _ rfl
      refine (absorb_lands t ht hfound).bind ?_
      rintro found' new ⟨hextends, hfound', hheld, hnested, hmoved⟩
      refine (absorbNested_lands ts hts (forall_withinAll_set hshapes hfound')).mono ?_
      rintro shapes' more ⟨hrest, hshapes', hall, hmoved'⟩
      have hset : found' ∈ shapes.set index found' :=
        List.mem_set (List.getElem?_eq_some_iff.1 hget).1 _
      refine ⟨(ExtendsAll.replace hget hextends).trans hrest, hshapes', ⟨?_, ?_⟩, ?_⟩
      · obtain ⟨n, hn, hext⟩ := hrest found' hset
        refine ⟨n, hn, hext.name.trans (hextends.name.trans hname), hext.receives (receives_iff.2 ⟨?_, ?_, ?_⟩)⟩
        · rw [hextends.key_eq]
          exact .inr List.mem_cons_self
        · exact hheld.mono (by simp) (List.Subset.refl _)
        · exact ReceivesAll.mono (by simp) t.nested hnested
      · exact ReceivesAll.mono (by simp) ts hall
      · obtain ⟨hlt, hfoundAt⟩ := List.getElem?_eq_some_iff.1 hget
        have hold : shapes = shapes.take index ++ found :: shapes.drop (index + 1) := by
          rw [← hfoundAt, List.getElem_cons_drop, List.take_append_drop]
        have hnew : shapes.set index found' =
            shapes.take index ++ found' :: shapes.drop (index + 1) := by
          rw [List.set_eq_take_append_cons_drop, if_pos hlt]
        have hkept : found.key ∈ filedAll shapes := by
          refine key_mem_filedAll ?_
          rw [withinAll_eq]
          exact List.mem_flatMap.2 ⟨found, hmem, found.self_mem_within⟩
        have hinner := hmoved.beside (filedAll (shapes.take index ++ shapes.drop (index + 1)))
          (d := filedAll shapes) (e := filedAll (shapes.set index found'))
          (by conv_lhs => rw [hold]
              exact filedAll_middle _ _ found)
          (by rw [hnew]
              exact filedAll_middle _ _ found')
        exact (Moved.drop ⟨source, t.token⟩ hkept).trans (hinner.trans hmoved')
    case h_2 =>
      -- there is none, and the type gets a shape behind the others
      refine (absorb_lands t ht (drawn_ofType (ht t t.self_mem_within))).bind ?_
      rintro s new ⟨hextends, hs, hheld, hnested, hmoved⟩
      refine (absorbNested_lands ts hts (forall_withinAll_append hshapes hs)).mono ?_
      rintro shapes' more ⟨hrest, hshapes', hall, hmoved'⟩
      refine ⟨(ExtendsAll.append shapes [s]).trans hrest, hshapes', ⟨?_, ?_⟩, ?_⟩
      · obtain ⟨n, hn, hext⟩ := hrest s (List.mem_append_right _ (List.mem_singleton_self s))
        refine ⟨n, hn, hext.name.trans hextends.name, hext.receives (receives_iff.2 ⟨?_, ?_, ?_⟩)⟩
        · rw [hextends.key_eq]
          exact .inl rfl
        · exact hheld.mono (List.subset_append_left new more) (List.Subset.refl _)
        · exact ReceivesAll.mono (List.subset_append_left new more) t.nested hnested
      · exact ReceivesAll.mono (List.subset_append_right new more) ts hall
      · have hfile := Moved.file (filedAll shapes) ⟨source, t.token⟩
        have hinner := hmoved.beside (filedAll shapes) (.refl _) (.refl _)
        rw [filedAll_append_singleton] at hmoved'
        exact hfile.trans (hinner.trans hmoved')

end

/-! ## The shapes of a merge -/

variable {plan : Plan}

theorem Receives.rename {s : Shape} {t : TypeDef} (h : Receives l rs source t s) (name : String)
    (flags : TypeFlags) : Receives l rs source t { s with name, flags } := by
  obtain ⟨htoken, hmembers, hnested⟩ := receives_iff.1 h
  exact receives_iff.2 ⟨htoken, hmembers, hnested⟩

/-- The shapes that have been made when some declarations have been placed: each stands for one of
them, and each of them has landed in one. -/
structure Landed (l : Linkage) (plan : Plan) (done : List Declaration) (shapes : PlacedShapes)
    (rs : List Redirect) : Prop where
  drawn : ∀ p ∈ shapes, ∀ u ∈ p.2.within, Drawn l.set u
  heads : List.Forall₂ (fun d p => p.1 = d.origin ∧ StandsFor plan d p.2)
    (done.filter fun d => plan.emits d.origin) shapes
  held : ∀ d ∈ done, ∃ p ∈ shapes, plan.GoesInto d p.1 ∧ Receives l rs d.origin.module d.type p.2
  moved : Moved [] (filedAll (shapes.map Prod.snd))
    (done.flatMap fun d => d.type.keysFrom d.origin.module) rs

namespace Landed

variable {done : List Declaration} {d : Declaration} {shapes : PlacedShapes} {new : List Redirect}

theorem origins (h : Landed l plan done shapes rs) :
    shapes.map Prod.fst = (done.filter fun d => plan.emits d.origin).map Declaration.origin := by
  have hheads := h.heads
  clear h
  generalize (done.filter fun d => plan.emits d.origin) = ds at hheads
  induction hheads with
  | nil => rfl
  | cons hd _ ih => rw [List.map_cons, List.map_cons, hd.1, ih]

/-- A type gets a shape of its own. -/
theorem emit (h : Landed l plan done shapes rs) {s : Shape} {name : String} {hide : Bool}
    (hplace : plan.placement? d.origin = some (.emit name hide))
    (hextends : Extends (ofType d.origin.module d.type) s) (hs : ∀ u ∈ s.within, Drawn l.set u)
    (hheld : ReceivesMembers l new d.origin.module d.type s)
    (hnested : ReceivesAll l new d.origin.module d.type.nested s.nested)
    (hmoved : Moved (ofType d.origin.module d.type).filedWithin s.filedWithin
      (d.type.members.map (fun x => ⟨d.origin.module, x.token⟩) ++
        d.type.nested.flatMap (TypeDef.keysFrom d.origin.module)) new) :
    Landed l plan (done ++ [d])
      (shapes ++ [(d.origin, { s with
        name, flags := if hide then s.flags.withVisibility .notPublic else s.flags })])
      (rs ++ new) := by
  have hemits : plan.emits d.origin := by
    rw [Plan.emits, hplace]
  constructor
  · refine List.forall_mem_append.2 ⟨h.drawn, List.forall_mem_singleton.2 ?_⟩
    obtain ⟨hself, hinner⟩ := forall_within_iff.1 hs
    exact forall_within_iff.2
      ⟨⟨hself.origin, hself.parts, hself.declared, hself.interfaces, hself.attributes⟩, hinner⟩
  · rw [List.filter_append, List.filter_cons, if_pos hemits, List.filter_nil]
    refine List.rel_append h.heads (.cons ⟨rfl, ?_⟩ .nil)
    refine ⟨hextends.source, hextends.origin, name, hide, hplace, rfl, ?_⟩
    rw [hextends.flags]
    rfl
  · refine List.forall_mem_append.2 ⟨fun e he => ?_, List.forall_mem_singleton.2 ?_⟩
    · obtain ⟨p, hp, hgoes, hholds⟩ := h.held e he
      exact ⟨p, List.mem_append_left _ hp, hgoes, Receives.mono (List.subset_append_left rs new) _ hholds⟩
    · refine ⟨_, List.mem_append_right _ (List.mem_singleton_self _), .inl rfl, Receives.rename ?_ _ _⟩
      refine Receives.mono (List.subset_append_right rs new) _ (receives_iff.2 ⟨?_, hheld, hnested⟩)
      rw [hextends.key_eq]
      exact .inl rfl
  · rw [List.map_append, List.map_singleton, filedAll_append_singleton, filedWithin_rename,
      List.flatMap_append, List.flatMap_singleton, TypeDef.keysFrom_eq]
    have hfile := Moved.file (filedAll (shapes.map Prod.snd)) ⟨d.origin.module, d.type.token⟩
    exact h.moved.trans (hfile.trans (hmoved.beside _ (.refl _) (.refl _)))

/-- A type becomes part of a shape that is there already. -/
theorem into {before after : PlacedShapes} {target : Origin} {s s' : Shape}
    (h : Landed l plan done (before ++ (target, s) :: after) rs)
    (hplace : plan.placement? d.origin = some (.into target)) (hextends : Extends s s')
    (hs' : ∀ u ∈ s'.within, Drawn l.set u) (hheld : ReceivesMembers l new d.origin.module d.type s')
    (hnested : ReceivesAll l new d.origin.module d.type.nested s'.nested)
    (hmoved : Moved s.filedWithin s'.filedWithin
      (d.type.members.map (fun x => ⟨d.origin.module, x.token⟩) ++
        d.type.nested.flatMap (TypeDef.keysFrom d.origin.module)) new) :
    Landed l plan (done ++ [d]) (before ++ (target, s') :: after)
      (rs ++ (⟨⟨d.origin.module, d.type.token⟩, s.key⟩ :: new)) := by
  have hemits : ¬ plan.emits d.origin := by
    rw [Plan.emits, hplace]
    exact Bool.false_ne_true
  have hmem : (target, s') ∈ before ++ (target, s') :: after :=
    List.mem_append_right _ List.mem_cons_self
  constructor
  · obtain ⟨hbefore, hafter⟩ := List.forall_mem_append.1 h.drawn
    exact List.forall_mem_append.2
      ⟨hbefore, List.forall_mem_cons.2 ⟨hs', (List.forall_mem_cons.1 hafter).2⟩⟩
  · rw [List.filter_append, List.filter_cons, if_neg hemits, List.filter_nil, List.append_nil]
    exact forall₂_replace h.heads fun d hd => ⟨hd.1, hd.2.of_sameHead hextends.toSameHead⟩
  · refine List.forall_mem_append.2 ⟨fun e he => ?_, List.forall_mem_singleton.2 ?_⟩
    · -- what has landed in the shape is there still
      obtain ⟨p, hp, hgoes, hholds⟩ := h.held e he
      have hmono := Receives.mono (List.subset_append_left rs
        (⟨⟨d.origin.module, d.type.token⟩, s.key⟩ :: new)) e.type hholds
      rcases List.mem_append.1 hp with hbefore | hafter
      · exact ⟨p, List.mem_append_left _ hbefore, hgoes, hmono⟩
      · rcases List.mem_cons.1 hafter with rfl | hafter
        · exact ⟨(target, s'), hmem, hgoes, hextends.receives hmono⟩
        · exact ⟨p, List.mem_append_right _ (List.mem_cons_of_mem _ hafter), hgoes, hmono⟩
    · refine ⟨(target, s'), hmem, .inr hplace, receives_iff.2 ⟨?_, ?_, ?_⟩⟩
      · rw [hextends.key_eq]
        exact .inr (List.mem_append_right _ List.mem_cons_self)
      · exact hheld.mono (by simp) (List.Subset.refl _)
      · exact ReceivesAll.mono (by simp) d.type.nested hnested
  · rw [List.flatMap_append, List.flatMap_singleton, TypeDef.keysFrom_eq]
    have hkept : s.key ∈ filedAll ((before ++ (target, s) :: after).map Prod.snd) := by
      refine key_mem_filedAll (mem_withinAll_snd.2 ?_)
      exact ⟨(target, s), List.mem_append_right _ List.mem_cons_self, s.self_mem_within⟩
    have hinner := hmoved.beside (filedAll (before.map Prod.snd ++ after.map Prod.snd))
      (d := filedAll ((before ++ (target, s) :: after).map Prod.snd))
      (e := filedAll ((before ++ (target, s') :: after).map Prod.snd))
      (by rw [List.map_append, List.map_cons]
          exact filedAll_middle _ _ s)
      (by rw [List.map_append, List.map_cons]
          exact filedAll_middle _ _ s')
    exact h.moved.trans ((Moved.drop _ hkept).trans hinner)

end Landed

theorem placeDeclaration_lands {done : List Declaration} {d : Declaration}
    (hnodup : (done.map Declaration.origin).Nodup) (hd : d ∈ l.set.declarations)
    {shapes : PlacedShapes} (h : Landed l plan done shapes rs) :
    Settles (placeDeclaration l plan shapes d) fun shapes' new =>
      Landed l plan (done ++ [d]) shapes' (rs ++ new) := by
  have htypes : ∀ u ∈ d.type.within, l.set.Declares ⟨d.origin.module, u⟩ :=
    fun u hu => ModuleSet.declares_of_mem_declarations hd hu
  unfold placeDeclaration
  dsimp only
  split
  case h_1 => exact Settles.throw _
  case h_2 name hide hplace =>
    refine (Settles.lift (absorb_lands d.type htypes (drawn_ofType (htypes _ d.type.self_mem_within)))).bind ?_
    rintro s new ⟨hextends, hs, hheld, hnested, hmoved⟩
    refine Settles.pure ?_
    rw [List.append_nil]
    exact h.emit hplace hextends hs hheld hnested hmoved
  case h_3 target hplace =>
    split
    case h_1 => exact Settles.throw _
    case h_2 s hlookup =>
      -- no two shapes have one place, so that only one of them is replaced
      have hdistinct : (shapes.map Prod.fst).Nodup := by
        rw [h.origins]
        exact hnodup.sublist (List.filter_sublist.map _)
      obtain ⟨before, after, rfl, -⟩ := List.lookup_eq_some_iff.1 hlookup
      have hs := h.drawn (target, s) (List.mem_append_right _ List.mem_cons_self)
      refine (Settles.lift (Yields.redirect _ _)).bind ?_
      rintro _ _ rfl
      refine (Settles.lift (absorb_lands d.type htypes hs)).bind ?_
      rintro s' new ⟨hextends, hs', hheld, hnested, hmoved⟩
      refine Settles.pure ?_
      rw [update_middle hdistinct, List.append_nil]
      exact h.into hplace hextends hs' hheld hnested hmoved

/-- When all declarations have been placed, every type of the inputs has landed in a shape. -/
theorem placeDeclarations_lands (l : Linkage) (plan : Plan) :
    Settles (l.set.declarations.foldlM (placeDeclaration l plan) []) fun placed rs =>
      Landed l plan l.set.declarations placed rs := by
  refine Settles.foldlM (motive := fun done shapes rs => Landed l plan done shapes rs)
    ⟨nofun, .nil, nofun, .refl []⟩ ?_
  rintro done d rest hdone shapes rs h
  have hd : d ∈ l.set.declarations := by simp [← hdone]
  have hnodup : (done.map Declaration.origin).Nodup := by
    refine l.set.nodup_origins.sublist (List.Sublist.map _ ?_)
    rw [← hdone]
    exact List.sublist_append_left _ _
  exact placeDeclaration_lands hnodup hd h

/-- What is known of the placed shapes is known of those that are built. -/
theorem buildAll_of_placed {P : PlacedShapes → List Redirect → Prop}
    (h : Settles (l.set.declarations.foldlM (placeDeclaration l plan) []) P) :
    Settles (buildAll l plan) fun shapes rs => ∃ placed : PlacedShapes,
      shapes = placed.map Prod.snd ∧ P placed rs := by
  unfold buildAll
  refine h.bind fun placed rs hplaced => Settles.pure ?_
  rw [List.append_nil]
  exact ⟨placed, rfl, hplaced⟩

/-- In the end every type of the inputs has landed in a shape. -/
theorem buildAll_lands (l : Linkage) (plan : Plan) :
    Settles (buildAll l plan) fun shapes rs => ∃ placed : PlacedShapes,
      shapes = placed.map Prod.snd ∧ Landed l plan l.set.declarations placed rs :=
  buildAll_of_placed (placeDeclarations_lands l plan)

end Shape

end ModuleLinker
