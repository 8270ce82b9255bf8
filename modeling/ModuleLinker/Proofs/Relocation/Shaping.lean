import ModuleLinker.Proofs.Logging
import ModuleLinker.Proofs.ModuleSet
import ModuleLinker.Proofs.Relocation.Writing
import ModuleLinker.Proofs.Repetition
import ModuleLinker.Relocation.Shape

namespace ModuleLinker

/-! # Reasoning about shaping

Shaping leaves notices, which nothing depends on, and only ever adds redirected tokens to those there
are. What a step does is therefore a relation between its answer and the redirects that it adds.
-/

/-! ## Loops -/

/-- A rule for loops: in a monad with a relation between answers and added redirects that goes along
with the steps of a computation, what each step keeps holds in the end. -/
theorem Shaping.loop {m : Type → Type} [Monad m] [LawfulMonad m]
    {T : {α : Type} → m α → (α → List Redirect → Prop) → Prop}
    (hpure : ∀ {α : Type} {p : α → List Redirect → Prop} {a : α}, p a [] → T (Pure.pure a) p)
    (hbind : ∀ {α β : Type} {x : m α} {f : α → m β} {p : α → List Redirect → Prop}
      {q : β → List Redirect → Prop}, T x p →
        (∀ a new, p a new → T (f a) fun b more => q b (new ++ more)) → T (x >>= f) q)
    {α β : Type} {step : α → β → m α} {motive : List β → α → List Redirect → Prop} {xs : List β}
    {a : α} (hnil : motive [] a [])
    (hstep : ∀ done x rest, done ++ x :: rest = xs → ∀ b new, motive done b new →
      T (step b x) fun c more => motive (done ++ [x]) c (new ++ more)) :
    T (xs.foldlM step a) (motive xs) := by
  -- the induction is on what is left, for any part that is done with
  have hrest : ∀ rest done b new, done ++ rest = xs → motive done b new →
      T (rest.foldlM step b) fun c more => motive xs c (new ++ more) := by
    intro rest
    induction rest with
    | nil =>
      intro done b new hxs hb
      rw [List.append_nil] at hxs
      refine hpure ?_
      rwa [List.append_nil, ← hxs]
    | cons x rest ih =>
      intro done b new hxs hb
      rw [List.foldlM_cons]
      refine hbind (hstep done x rest hxs b new hb) fun c more hc => ?_
      have hlast := ih (done ++ [x]) c (new ++ more) (by simpa using hxs) hc
      simpa only [List.append_assoc] using hlast
  exact hrest xs [] a [] rfl hnil

/-! ## Redirects -/

/-- Whatever was redirected and noted before, `x` answers and adds redirects as the relation says. -/
def Shaping.Yields (x : Shaping α) (post : α → List Redirect → Prop) : Prop :=
  ∀ before log, ∃ a new log', (x.run before).run log = ((a, before ++ new), log') ∧ post a new

namespace Shaping.Yields

variable {x : Shaping α} {f : α → Shaping β} {p : α → List Redirect → Prop}
  {q : β → List Redirect → Prop}

theorem pure {a : α} (h : p a []) : Yields (Pure.pure a) p := by
  intro before log
  exact ⟨a, [], log, by rw [List.append_nil]; rfl, h⟩

theorem bind (hx : Yields x p) (hf : ∀ a new, p a new → Yields (f a) fun b more => q b (new ++ more)) :
    Yields (x >>= f) q := by
  intro before log
  obtain ⟨a, new, log₁, hrun, ha⟩ := hx before log
  obtain ⟨b, more, log₂, hrest, hb⟩ := hf a new ha (before ++ new) log₁
  refine ⟨b, new ++ more, log₂, ?_, hb⟩
  have hbind : ((x >>= f).run before).run log =
      (((f ((x.run before).run log).1.1).run ((x.run before).run log).1.2).run
        ((x.run before).run log).2) := rfl
  rw [hbind, hrun, hrest, List.append_assoc]

theorem mono {p' : α → List Redirect → Prop} (hx : Yields x p) (h : ∀ a new, p a new → p' a new) :
    Yields x p' := by
  intro before log
  obtain ⟨a, new, log', hrun, ha⟩ := hx before log
  exact ⟨a, new, log', hrun, h a new ha⟩

/-- Two things that are known of a computation are known of the same answer. -/
theorem and {p' : α → List Redirect → Prop} (hx : Yields x p) (hx' : Yields x p') :
    Yields x fun a new => p a new ∧ p' a new := by
  intro before log
  rcases hx before log with ⟨a, new, log', hrun, ha⟩
  rcases hx' before log with ⟨a', new', log'', hrun', ha'⟩
  -- both start from the same redirects and notices
  have heq := hrun.symm.trans hrun'
  rcases Prod.mk.inj (Prod.mk.inj heq).1 with ⟨rfl, hnew⟩
  have hsame := List.append_cancel_left hnew
  exact ⟨a, new, log', hrun, ha, hsame ▸ ha'⟩

theorem redirect (dropped kept : SourceToken) :
    Yields (Shape.redirect dropped kept) fun _ new => new = [⟨dropped, kept⟩] := by
  intro before log
  exact ⟨(), _, log, rfl, rfl⟩

/-- Notices redirect nothing. -/
theorem lift {x : Logging α} {post : α → Prop} (hx : x.Answers post) :
    Yields (liftM x) fun a new => post a ∧ new = [] := by
  intro before log
  exact ⟨(x.run log).1, [], (x.run log).2, by rw [List.append_nil]; rfl, hx log, rfl⟩

/-- What each step keeps holds in the end; `motive` speaks of the elements that are done with. -/
theorem foldlM {step : α → β → Shaping α} {motive : List β → α → List Redirect → Prop}
    {xs : List β} {a : α} (hnil : motive [] a [])
    (hstep : ∀ done x, x ∈ xs → ∀ b new, motive done b new →
      Yields (step b x) fun c more => motive (done ++ [x]) c (new ++ more)) :
    Yields (xs.foldlM step a) (motive xs) :=
  loop Yields.pure Yields.bind hnil fun done x rest hxs => hstep done x (by simp [← hxs])

end Shaping.Yields

/-! ## Shaping that may fail -/

/-- Where `x` answers, it does so as the relation says. -/
def Shaping.Settles (x : ExceptT Fault Shaping α) (post : α → List Redirect → Prop) : Prop :=
  Yields x.run fun result new => ∀ a, result = .ok a → post a new

namespace Shaping.Settles

variable {x : ExceptT Fault Shaping α} {f : α → ExceptT Fault Shaping β}
  {p : α → List Redirect → Prop} {q : β → List Redirect → Prop}

theorem pure {a : α} (h : p a []) : Settles (Pure.pure a) p :=
  Yields.pure fun _ heq => Except.ok.inj heq ▸ h

theorem throw (fault : Fault) : Settles (MonadExcept.throw fault) p :=
  Yields.pure nofun

theorem lift {x : Shaping α} (hx : Yields x p) : Settles (liftM x) p :=
  hx.bind fun _ _ ha => Yields.pure fun _ heq => Except.ok.inj heq ▸ by rwa [List.append_nil]

theorem mono {p' : α → List Redirect → Prop} (hx : Settles x p) (h : ∀ a new, p a new → p' a new) :
    Settles x p' :=
  Yields.mono hx fun _ new hresult a heq => h a new (hresult a heq)

theorem and {p' : α → List Redirect → Prop} (hx : Settles x p) (hx' : Settles x p') :
    Settles x fun a new => p a new ∧ p' a new :=
  (Yields.and hx hx').mono fun _ _ h a heq => ⟨h.1 a heq, h.2 a heq⟩

theorem bind (hx : Settles x p) (hf : ∀ a new, p a new → Settles (f a) fun b more => q b (new ++ more)) :
    Settles (x >>= f) q := by
  have hrun : (x >>= f).run = x.run >>= ExceptT.bindCont f := rfl
  unfold Settles
  rw [hrun]
  refine Yields.bind hx fun result new hresult => ?_
  rcases result with fault | a
  · exact Yields.pure nofun
  · exact hf a new (hresult a rfl)

/-- What is known of a computation holds of its answer and of the redirects that it has made. -/
theorem of_run (hx : Settles x p) {log log' : Log} {a : α} {redirects : List Redirect}
    (h : (x.run.run []).run log = ((.ok a, redirects), log')) : p a redirects := by
  obtain ⟨result, new, log₁, hrun, hp⟩ := hx [] log
  obtain ⟨hboth, -⟩ := Prod.mk.inj (hrun.symm.trans h)
  obtain ⟨rfl, rfl⟩ := Prod.mk.inj hboth
  exact hp a rfl

/-- What each step keeps holds in the end; `motive` speaks of the elements that are done with. -/
theorem foldlM {step : α → β → ExceptT Fault Shaping α}
    {motive : List β → α → List Redirect → Prop} {xs : List β} {a : α} (hnil : motive [] a [])
    (hstep : ∀ done x rest, done ++ x :: rest = xs → ∀ b new, motive done b new →
      Settles (step b x) fun c more => motive (done ++ [x]) c (new ++ more)) :
    Settles (xs.foldlM step a) (motive xs) :=
  loop Settles.pure Settles.bind hnil hstep

end Shaping.Settles

/-! ## Shaping that does not fail -/

/-- Whatever was redirected and noted before, `x` is not stopped, and its answer is as said. -/
def Shaping.Reaches (x : ExceptT Fault Shaping α) (post : α → Prop) : Prop :=
  ∀ before log, ∃ a, ((x.run.run before).run log).1.1 = .ok a ∧ post a

namespace Shaping.Reaches

variable {x : ExceptT Fault Shaping α} {f : α → ExceptT Fault Shaping β} {p : α → Prop} {q : β → Prop}

theorem pure {a : α} (h : p a) : Reaches (Pure.pure a) p := fun _ _ => ⟨a, rfl, h⟩

/-- Shaping itself is never stopped. -/
theorem lift (x : Shaping α) : Reaches (liftM x) fun _ => True :=
  fun before log => ⟨((x.run before).run log).1.1, rfl, trivial⟩

theorem bind (hx : Reaches x p) (hf : ∀ a, p a → Reaches (f a) q) : Reaches (x >>= f) q := by
  intro before log
  obtain ⟨a, hrun, ha⟩ := hx before log
  obtain ⟨b, hrest, hb⟩ := hf a ha ((x.run.run before).run log).1.2 ((x.run.run before).run log).2
  refine ⟨b, ?_, hb⟩
  have hbind : ((x >>= f).run.run before).run log =
      ((ExceptT.bindCont f ((x.run.run before).run log).1.1).run
        ((x.run.run before).run log).1.2).run ((x.run.run before).run log).2 := rfl
  rw [hbind, hrun]
  exact hrest

/-- What each step keeps holds in the end; `motive` speaks of the elements that are done with. -/
theorem foldlM {step : α → β → ExceptT Fault Shaping α} {motive : List β → α → Prop} {xs : List β}
    {a : α} (hnil : motive [] a)
    (hstep : ∀ done x rest, done ++ x :: rest = xs → ∀ b, motive done b →
      Reaches (step b x) (motive (done ++ [x]))) :
    Reaches (xs.foldlM step a) (motive xs) := by
  -- of the redirects that a step adds nothing is said
  have hloop : Reaches (xs.foldlM step a) fun b => ∃ _ : List Redirect, motive xs b := by
    refine Shaping.loop (T := fun x p => Reaches x fun a => ∃ new, p a new)
      (motive := fun done b _ => motive done b) (fun h => pure ⟨[], h⟩) ?_ hnil ?_
    · intro _ _ x f p q hx hf
      refine bind hx ?_
      rintro a ⟨new, ha⟩ before log
      obtain ⟨b, hrun, more, hb⟩ := hf a new ha before log
      exact ⟨b, hrun, new ++ more, hb⟩
    · intro done x rest hxs b _ hb before log
      obtain ⟨c, hrun, hc⟩ := hstep done x rest hxs b hb before log
      exact ⟨c, hrun, [], hc⟩
  intro before log
  obtain ⟨b, hrun, -, hb⟩ := hloop before log
  exact ⟨b, hrun, hb⟩

end Shaping.Reaches

/-! ## Faults of shaping -/

/-- Whatever was redirected and noted before, `x` is only stopped by faults as said. -/
def Shaping.StopsWith (x : ExceptT Fault Shaping α) (fails : Fault → Prop) : Prop :=
  ∀ before log fault, ((x.run.run before).run log).1.1 = .error fault → fails fault

namespace Shaping.StopsWith

variable {x : ExceptT Fault Shaping α} {f : α → ExceptT Fault Shaping β} {fails : Fault → Prop}

theorem pure (a : α) : StopsWith (Pure.pure a) fails := fun _ _ _ h => nomatch h

theorem throw {fault : Fault} (h : fails fault) :
    StopsWith (MonadExcept.throw fault : ExceptT Fault Shaping α) fails :=
  fun _ _ _ heq => Except.error.inj heq ▸ h

theorem lift (x : Shaping α) : StopsWith (liftM x) fails := fun _ _ _ h => nomatch h

theorem bind (hx : StopsWith x fails) (hf : ∀ a, StopsWith (f a) fails) : StopsWith (x >>= f) fails := by
  intro before log fault h
  have hbind : ((x >>= f).run.run before).run log =
      ((ExceptT.bindCont f ((x.run.run before).run log).1.1).run
        ((x.run.run before).run log).1.2).run ((x.run.run before).run log).2 := rfl
  rw [hbind] at h
  rcases hrun : ((x.run.run before).run log).1.1 with fault' | a
  · rw [hrun] at h
    obtain rfl : fault' = fault := Except.error.inj h
    exact hx before log fault' hrun
  · rw [hrun] at h
    exact hf a _ _ fault h

theorem foldlM {step : α → β → ExceptT Fault Shaping α} (h : ∀ a x, StopsWith (step a x) fails)
    (xs : List β) (a : α) : StopsWith (xs.foldlM step a) fails := by
  induction xs generalizing a with
  | nil => exact pure a
  | cons x xs ih =>
    rw [List.foldlM_cons]
    exact bind (h a x) ih

end Shaping.StopsWith

namespace Shape

/-- The shape with one more member. -/
def add (s : Shape) (x : Sourced Member) : Shape :=
  match x.value with
  | .field y => { s with fields := s.fields ++ [⟨x.source, y⟩] }
  | .method y => { s with methods := s.methods ++ [⟨x.source, y⟩] }
  | .property y => { s with properties := s.properties ++ [⟨x.source, y⟩] }
  | .event y => { s with events := s.events ++ [⟨x.source, y⟩] }

theorem pick_eq (source : Nat) {tokenOf : α → Token} {xs : List α} {x : α} (hx : x ∈ xs)
    (hnodup : (xs.map tokenOf).Nodup) : pick source (tokenOf x) tokenOf xs = [⟨source, x⟩] := by
  rw [pick, filter_key_eq hx hnodup]
  rfl

/-- The members of a token are the one member that has it. -/
theorem addMember_eq (source : Nat) {t : TypeDef} {x : Member} (s : Shape) (hx : x ∈ t.members)
    (htable : x.token.table = x.table) (hnodup : (t.members.map Member.token).Nodup) :
    addMember source t x.token s = s.add ⟨source, x⟩ := by
  simp only [TypeDef.members, List.map_append, List.map_map, List.nodup_append', List.mem_append,
    List.mem_map] at hx hnodup
  rcases hnodup with ⟨⟨⟨hfields, hmethods, -⟩, hproperties, -⟩, hevents, -⟩
  unfold addMember add
  rcases hx with ((⟨y, hy, rfl⟩ | ⟨y, hy, rfl⟩) | ⟨y, hy, rfl⟩) | ⟨y, hy, rfl⟩
  · have hfield : (Member.field y).token.table = Table.field := htable
    rw [if_pos hfield]
    exact congrArg (fun xs => { s with fields := s.fields ++ xs }) (pick_eq source hy hfields)
  · have hmethod : (Member.method y).token.table = Table.method := htable
    rw [hmethod, if_neg (by decide), if_pos rfl]
    exact congrArg (fun xs => { s with methods := s.methods ++ xs }) (pick_eq source hy hmethods)
  · have hproperty : (Member.property y).token.table = Table.property := htable
    rw [hproperty, if_neg (by decide), if_neg (by decide), if_pos rfl]
    exact congrArg (fun xs => { s with properties := s.properties ++ xs })
      (pick_eq source hy hproperties)
  · have hevent : (Member.event y).token.table = Table.event := htable
    rw [hevent, if_neg (by decide), if_neg (by decide), if_neg (by decide)]
    exact congrArg (fun xs => { s with events := s.events ++ xs }) (pick_eq source hy hevents)

/-- Two shapes that started from the same type and are written under the same name. -/
structure SameHead (s s' : Shape) : Prop where
  source : s'.source = s.source
  origin : s'.origin = s.origin
  name : s'.name = s.name
  flags : s'.flags = s.flags

theorem SameHead.trans {s s' s'' : Shape} (h : SameHead s s') (h' : SameHead s' s'') :
    SameHead s s'' :=
  ⟨h'.source.trans h.source, h'.origin.trans h.origin, h'.name.trans h.name, h'.flags.trans h.flags⟩

/-- Two shapes that differ in nothing but their members and attributes. -/
structure SameRest (s s' : Shape) : Prop extends SameHead s s' where
  interfaces : s'.interfaces = s.interfaces
  interfaceNames : s'.interfaceNames = s.interfaceNames
  nested : s'.nested = s.nested

theorem SameRest.trans {s s' s'' : Shape} (h : SameRest s s') (h' : SameRest s' s'') :
    SameRest s s'' :=
  ⟨h.toSameHead.trans h'.toSameHead, h'.interfaces.trans h.interfaces,
    h'.interfaceNames.trans h.interfaceNames, h'.nested.trans h.nested⟩

section

open Shaping

variable {l : Linkage} {source : Nat} {t : TypeDef}

/-- The shape with one more member, filed under its key. -/
def keep (l : Linkage) (s : Shape) (x : Sourced Member) : Shape :=
  { s.add x with members := s.members ++ [(x.value.key (l.names x.source), partKey x)] }

theorem add_eq_keep (l : Linkage) (s : Shape) (x : Sourced Member) :
    { s with members := s.members ++ [(x.value.key (l.names x.source), partKey x)] }.add x =
      s.keep l x := by
  rcases x with ⟨source, x⟩
  cases x <;> rfl

theorem sameRest_keep (s : Shape) (x : Sourced Member) : SameRest s (s.keep l x) := by
  rcases x with ⟨source, y | y | y | y⟩ <;> exact ⟨⟨rfl, rfl, rfl, rfl⟩, rfl, rfl, rfl⟩

theorem parts_keep (s : Shape) (x : Sourced Member) : (s.keep l x).parts.Perm (s.parts ++ [x]) := by
  have hmiddle (as bs : List (Sourced Member)) : (as ++ [x] ++ bs).Perm (as ++ bs ++ [x]) := by
    rw [List.append_assoc]
    exact List.perm_middle.trans (List.perm_append_singleton ..).symm
  -- each kind of member has its place in the list of parts
  let fields := s.fields.map (Sourced.map Member.field)
  let methods := s.methods.map (Sourced.map Member.method)
  let properties := s.properties.map (Sourced.map Member.property)
  let events := s.events.map (Sourced.map Member.event)
  rcases x with ⟨source, y | y | y | y⟩
  · simpa [keep, add, parts, Sourced.map] using hmiddle fields (methods ++ properties ++ events)
  · simpa [keep, add, parts, Sourced.map] using hmiddle (fields ++ methods) (properties ++ events)
  · simpa [keep, add, parts, Sourced.map] using hmiddle (fields ++ methods ++ properties) events
  · simp [keep, add, parts, Sourced.map]

/-- What is done with a member: it is kept, unless the shape has one with its key. -/
theorem takeMember_eq (hset : l.set.WellNumbered) (ht : l.set.Declares ⟨source, t⟩) {x : Member}
    (hx : x ∈ t.members) (s : Shape) :
    takeMember source t s (x.key (l.names source), x.token) =
      (match s.members.lookup (x.key (l.names source)) with
        | some kept => do
          redirect ⟨source, x.token⟩ kept
          return s
        | none => return s.keep l ⟨source, x⟩) := by
  -- the members that go by a token are one member, since inputs are well numbered
  have hdeclared : l.set.DeclaresMember ⟨source, x⟩ := ⟨t, ht, hx⟩
  have htable := hset.table_eq hdeclared
  have hadd := addMember_eq source
    { s with members := s.members ++ [(x.key (l.names source), ⟨source, x.token⟩)] } hx htable
    (hset.nodup_members ht)
  have hkeep := hadd.trans (add_eq_keep l s ⟨source, x⟩)
  unfold takeMember
  dsimp only
  rcases s.members.lookup (x.key (l.names source)) with _ | kept
  · exact congrArg pure hkeep
  · rfl

/-- Of several members the first one with each key is taken, unless the shape has one with it. -/
theorem takeMembers_firsts (hset : l.set.WellNumbered) (ht : l.set.Declares ⟨source, t⟩)
    {xs : List Member} (hxs : ∀ x ∈ xs, x ∈ t.members) (s : Shape) :
    Yields ((xs.map fun x => (x.key (l.names source), x.token)).foldlM (takeMember source t) s)
      fun s' _ => SameRest s s' ∧ s'.parts.Perm (s.parts ++
        (firsts (Member.key (l.names source)) (s.members.map Prod.fst) xs).map (Sourced.mk source)) ∧
        s'.members.map Prod.fst = s.members.map Prod.fst ++
          (firsts (Member.key (l.names source)) (s.members.map Prod.fst) xs).map
            (Member.key (l.names source)) := by
  induction xs generalizing s with
  | nil =>
    apply Yields.pure
    exact ⟨⟨⟨rfl, rfl, rfl, rfl⟩, rfl, rfl, rfl⟩, by simp [firsts], by simp [firsts]⟩
  | cons x xs ih =>
    rcases List.forall_mem_cons.1 hxs with ⟨hx, hrest⟩
    rw [List.map_cons, List.foldlM_cons, takeMember_eq hset ht hx, firsts]
    rcases hlookup : s.members.lookup (x.key (l.names source)) with _ | kept
    · -- the key is new: the member is kept, and seen from now on
      have hnew : x.key (l.names source) ∉ s.members.map Prod.fst := by
        intro hmem
        rcases List.mem_map.1 hmem with ⟨entry, hentry, heq⟩
        have hne := List.lookup_eq_none_iff.1 hlookup entry hentry
        simp [heq] at hne
      have hparts := parts_keep (l := l) s ⟨source, x⟩
      have hmembers : (s.keep l ⟨source, x⟩).members.map Prod.fst =
          s.members.map Prod.fst ++ [x.key (l.names source)] := List.map_append
      have htail := ih hrest (s.keep l ⟨source, x⟩)
      rw [hmembers] at htail
      rw [if_neg hnew]
      apply htail.mono
      rintro s' _ ⟨hsame, hperm, hfiled⟩
      refine ⟨(sameRest_keep s ⟨source, x⟩).trans hsame, ?_, ?_⟩
      · rw [List.map_cons]
        apply (hperm.trans (hparts.append_right _)).trans
        rw [List.append_assoc]
        rfl
      · rw [hfiled, List.map_cons, List.append_assoc]
        rfl
    · -- the key has been seen: the member is dropped, and the shape stays as it is
      have hold : x.key (l.names source) ∈ s.members.map Prod.fst := by
        rcases List.lookup_eq_some_iff.1 hlookup with ⟨before, after, hmembers, -⟩
        simp [hmembers]
      rw [if_pos hold, bind_assoc]
      apply (Yields.redirect ⟨source, x.token⟩ kept).bind
      intro _ _ _
      exact ih hrest s

/-! ## Taking interfaces and attributes -/

/-- Of several interfaces the first one with each name is taken, unless the shape has one with it.
Their names are filed in front. -/
theorem foldl_takeInterface (source : Nat) (names : NameTable) (tokens : List Token) (s : Shape) :
    tokens.foldl (takeInterface source names) s =
      { s with
        interfaceNames :=
          ((firsts names.name s.interfaceNames tokens).map names.name).reverse ++ s.interfaceNames
        interfaces := s.interfaces ++
          (firsts names.name s.interfaceNames tokens).map (Sourced.mk source) } := by
  induction tokens generalizing s with
  | nil =>
    cases s
    simp [firsts]
  | cons token tokens ih =>
    rw [List.foldl_cons, takeInterface, firsts]
    by_cases hseen : names.name token ∈ s.interfaceNames
    · rw [if_pos hseen, if_pos (List.contains_iff_mem.2 hseen)]
      exact ih s
    · rw [if_neg hseen, if_neg (fun h => hseen (List.contains_iff_mem.1 h)), ih]
      -- names are filed in front, which is the other end than in the scan
      have hcongr : firsts names.name (s.interfaceNames ++ [names.name token]) tokens =
          firsts names.name (names.name token :: s.interfaceNames) tokens :=
        firsts_congr (by simp [or_comm]) tokens
      rw [hcongr]
      simp

theorem takeInterfaces_eq (source : Nat) (names : NameTable) (tokens : List Token) (s : Shape) :
    ∃ seen, tokens.foldl (takeInterface source names) s =
      { s with
        interfaceNames := seen
        interfaces := s.interfaces ++
          (firsts names.name s.interfaceNames tokens).map (Sourced.mk source) } :=
  ⟨_, foldl_takeInterface source names tokens s⟩

theorem exists_attributes (s : Shape) : ∃ kept, s = { s with attributes := kept } := by
  cases s
  exact ⟨_, rfl⟩

theorem takeAttribute_answers (l : Linkage) (source : Nat) (s : Shape) (a : Attribute) :
    (takeAttribute l source s a).Answers fun s' => ∃ kept, s' = { s with attributes := kept } := by
  unfold takeAttribute
  dsimp only
  split
  · apply Logging.Answers.bind
    intro _
    exact .pure s.exists_attributes
  · apply Logging.Answers.bind
    intro taken
    cases taken
    · exact .pure s.exists_attributes
    · exact .pure ⟨s.attributes ++ [⟨source, a⟩], rfl⟩

theorem takeAttributes_yields (l : Linkage) (source : Nat) (as : List Attribute) (s : Shape) :
    Yields (as.foldlM (fun s a => liftM (takeAttribute l source s a)) s)
      fun s' new => (∃ kept, s' = { s with attributes := kept }) ∧ new = [] := by
  refine Yields.foldlM
    (motive := fun _ s' new => (∃ kept, s' = { s with attributes := kept }) ∧ new = []) ?_ ?_
  · exact ⟨s.exists_attributes, rfl⟩
  · rintro done a _ _ new ⟨⟨kept, rfl⟩, rfl⟩
    apply (Yields.lift (takeAttribute_answers l source _ a)).mono
    rintro s' more ⟨⟨kept', rfl⟩, rfl⟩
    exact ⟨⟨kept', rfl⟩, rfl⟩

end

end Shape

end ModuleLinker
