import ModuleLinker.Log
import ModuleLinker.Proofs.Computation
import ModuleLinker.Proofs.ResourceNames
import ModuleLinker.Proofs.Traversal
import ModuleLinker.Workers

namespace ModuleLinker

/-! # Workers change nothing

The table that workers make of the inputs is that of the inputs one after another, but for the order of
its indices, which no plan depends on. Types that workers write are those that are written one after the
other. Only the fault that is told of may be another one.
-/

/-! ## Two runs that go alike

Two computations go alike if they leave the same notices and either both are stopped or both answer, with
answers that are related. Which fault stops them is left open.
-/

section

variable {α β γ α' β' : Type}

/-- Both results are faults, or both are answers that are related. -/
inductive SameEnd (r : α → β → Prop) : Except Fault α → Except Fault β → Prop where
  | faults (fault fault' : Fault) : SameEnd r (.error fault) (.error fault')
  | answers {a : α} {b : β} (h : r a b) : SameEnd r (.ok a) (.ok b)

namespace SameEnd

variable {r : α → β → Prop} {x : Except Fault α} {y : Except Fault β}

theorem refl (x : Except Fault α) : SameEnd Eq x x := by
  cases x with
  | error fault => exact .faults fault fault
  | ok a => exact .answers rfl

theorem symm (h : SameEnd r x y) : SameEnd (fun b a => r a b) y x := by
  cases h with
  | faults => exact .faults _ _
  | answers h => exact .answers h

theorem trans {z : Except Fault γ} {q : β → γ → Prop} {s : α → γ → Prop} (hxy : SameEnd r x y)
    (hyz : SameEnd q y z) (hs : ∀ a b c, r a b → q b c → s a c) : SameEnd s x z := by
  cases hxy with
  | faults =>
    cases hyz with
    | faults => exact .faults _ _
  | answers h =>
    cases hyz with
    | answers h' => exact .answers (hs _ _ _ h h')

theorem exists_left {b : β} (h : SameEnd r x (.ok b)) : ∃ a, x = .ok a ∧ r a b := by
  cases h with
  | answers h => exact ⟨_, rfl, h⟩

theorem exists_right {a : α} (h : SameEnd r (.ok a) y) : ∃ b, y = .ok b ∧ r a b :=
  h.symm.exists_left

theorem bind {f : α → Except Fault α'} {g : β → Except Fault β'} {q : α' → β' → Prop}
    (hxy : SameEnd r x y) (hfg : ∀ a b, r a b → SameEnd q (f a) (g b)) :
    SameEnd q (x >>= f) (y >>= g) := by
  cases hxy with
  | faults => exact .faults _ _
  | answers h => exact hfg _ _ h

end SameEnd

/-- After the same notices both computations end in the same way. -/
def Merging.Alike (r : α → β → Prop) (x : Merging α) (y : Merging β) : Prop :=
  ∀ log, (x.run.run log).2 = (y.run.run log).2 ∧ SameEnd r (x.run.run log).1 (y.run.run log).1

namespace Merging.Alike

variable {x : Merging α} {y : Merging β} {r : α → β → Prop}

theorem pure {a : α} {b : β} (h : r a b) : Alike r (Pure.pure a) (Pure.pure b) :=
  fun _ => ⟨rfl, .answers h⟩

theorem throw (fault : Fault) : Alike r (MonadExcept.throw fault) (MonadExcept.throw fault) :=
  fun _ => ⟨rfl, .faults fault fault⟩

theorem bind {f : α → Merging α'} {g : β → Merging β'} {q : α' → β' → Prop} (hxy : Alike r x y)
    (hfg : ∀ a b, r a b → Alike q (f a) (g b)) : Alike q (x >>= f) (y >>= g) := by
  intro log
  obtain ⟨hlog, hend⟩ := hxy log
  have hx : (x >>= f).run.run log =
      (ExceptT.bindCont f (x.run.run log).1).run (x.run.run log).2 := rfl
  have hy : (y >>= g).run.run log =
      (ExceptT.bindCont g (y.run.run log).1).run (y.run.run log).2 := rfl
  rw [hx, hy, ← hlog]
  -- what comes next starts from the same notices
  generalize (x.run.run log).1 = a, (y.run.run log).1 = b at hend
  cases hend with
  | faults => exact ⟨rfl, .faults _ _⟩
  | answers h => exact hfg _ _ h _

theorem refl (x : Merging α) : Alike Eq x x := fun _ => ⟨rfl, .refl _⟩

theorem symm (h : Alike r x y) : Alike (fun b a => r a b) y x :=
  fun log => ⟨(h log).1.symm, (h log).2.symm⟩

theorem trans {z : Merging γ} {q : β → γ → Prop} {s : α → γ → Prop} (hxy : Alike r x y)
    (hyz : Alike q y z) (hs : ∀ a b c, r a b → q b c → s a c) : Alike s x z :=
  fun log => ⟨(hxy log).1.trans (hyz log).1, (hxy log).2.trans (hyz log).2 hs⟩

theorem ofExcept {x : Except Fault α} {y : Except Fault β} (h : SameEnd r x y) :
    Alike r (Merging.ofExcept x) (Merging.ofExcept y) := fun _ => ⟨rfl, h⟩

end Merging.Alike

end

/-! ## Names that are taken -/

namespace Plan

variable {α β : Type}

/-- Whatever order names were taken in before, `x` answers the same and leaves the same notices and the
same names. -/
def Orderless (x : ResourceNaming α) : Prop :=
  ∀ taken taken' log, taken.Perm taken' → ∃ a new new' log',
    (x.run taken).run log = ((a, new), log') ∧ (x.run taken').run log = ((a, new'), log') ∧
      new.Perm new'

namespace Orderless

theorem lift (x : Logging α) : Orderless (liftM x : ResourceNaming α) :=
  fun taken taken' log h => ⟨(x.run log).1, taken, taken', (x.run log).2, rfl, rfl, h⟩

theorem stepwise : Stepwise @Orderless := by
  refine ⟨fun a taken taken' log h => ⟨a, taken, taken', log, rfl, rfl, h⟩, ?_⟩
  intro α β x f hx hf taken taken' log h
  obtain ⟨a, new, new', log₁, hrun, hrun', hnew⟩ := hx taken taken' log h
  obtain ⟨b, new₂, new₂', log₂, hrest, hrest', hnew₂⟩ := hf a new new' log₁ hnew
  have hbind (names : List String) : ((x >>= f).run names).run log =
      (((f ((x.run names).run log).1.1).run ((x.run names).run log).1.2).run
        ((x.run names).run log).2) := rfl
  refine ⟨b, new₂, new₂', log₂, ?_, ?_, hnew₂⟩
  · rw [hbind, hrun, hrest]
  · rw [hbind, hrun', hrest']

/-- A fresh name depends on which names are taken. -/
theorem freshResourceName (moduleName name : String) :
    Orderless (freshResourceName moduleName name) := by
  intro taken taken' log h
  have hname : freshName moduleName name taken = freshName moduleName name taken' := by
    unfold freshName
    have hcontains (n : Nat) : taken.contains (resourceCandidate moduleName name n) =
        taken'.contains (resourceCandidate moduleName name n) := by
      rw [Bool.eq_iff_iff, List.contains_iff_mem, List.contains_iff_mem, h.mem_iff]
    simp only [h.length_eq, hcontains]
  refine ⟨freshName moduleName name taken, _, _, log, by rw [freshResourceName_run]; rfl, ?_,
    h.cons (freshName moduleName name taken)⟩
  rw [freshResourceName_run, hname]
  rfl

end Orderless

theorem planResource_orderless (s : ModuleSet) (table : SymbolTable) (p : Policy) (moduleName : String)
    (origin : Origin) (r : Resource) : Orderless (planResource s table p moduleName origin r) := by
  have h := Orderless.stepwise
  unfold planResource
  dsimp only
  split
  case isTrue => exact h.pure _
  case isFalse =>
  split
  case isTrue =>
    split
    case isTrue => exact h.bind (.lift _) fun _ => h.pure _
    case isFalse => exact h.pure _
  case isFalse =>
  split
  case isTrue => exact h.pure _
  case isFalse =>
  split
  case isTrue => exact h.bind (.freshResourceName _ _) fun _ => h.bind (.lift _) fun _ => h.pure _
  case isFalse => exact h.bind (.lift _) fun _ => h.pure _

end Plan

/-! ## Plans from an indexed table -/

/-- An index lists the entries of a set in another order. -/
theorem SymbolTable.index_perm (set : ModuleSet) (names : Module → List String) :
    (Entry.index (entries set names)).Perm (entries set names) := by
  have hindex : (Entry.index (entries set names)).Nodup :=
    (Entry.pairwise_index _).imp fun {a b} h heq => by
      subst heq
      exact h.asymm h
  have hentries : (entries set names).Nodup :=
    (pairwise_entries set names).imp fun h heq => h.ne (congrArg Prod.snd heq)
  exact (List.perm_ext_iff_of_nodup hindex hentries).2 fun _ => Entry.mem_index

/-- Deciding looks at each type alone. -/
theorem Internalization.decideAll_congr {table table' : SymbolTable} {p p' : Policy} {merged : Merged}
    (h : ∀ d, decideOn table p merged d = decideOn table' p' merged d) (ds : List Declaration) :
    decideAll table p merged ds = decideAll table' p' merged ds := by
  induction ds with
  | nil => rfl
  | cons d rest ih => rw [decideAll, decideAll, h, ih]

namespace Plan

open Internalization

variable (set : ModuleSet) (p : Policy)

theorem placeTypes_indexed (merged : Merged) :
    placeTypes set (SymbolTable.ofSet set).indexed p merged = placeTypes set (.ofSet set) p merged := by
  have hdecide : decideAll (SymbolTable.ofSet set).indexed p merged set.declarations =
      decideAll (.ofSet set) p merged set.declarations := by
    refine decideAll_congr ?_ _
    exact fun _ => rfl
  unfold placeTypes
  rw [hdecide]
  rfl

theorem planResources_indexed :
    planResources set (SymbolTable.ofSet set).indexed p = planResources set (.ofSet set) p := by
  have hone (moduleName : String) (origin : Origin) (r : Resource) :
      planResource set (SymbolTable.ofSet set).indexed p moduleName origin r =
        planResource set (.ofSet set) p moduleName origin r := by
    unfold planResource
    rw [SymbolTable.resourceOrigins_indexed]
  have hnames : ((SymbolTable.ofSet set).indexed.resources.map (·.1)).Perm
      ((SymbolTable.ofSet set).resources.map (·.1)) :=
    (SymbolTable.index_perm set fun m => m.resources.map Resource.name).map _
  unfold planResources
  simp only [hone]
  refine StateT.ext fun log => ?_
  obtain ⟨kept, _, _, log', hrun, hrun', -⟩ := Orderless.stepwise.mapM
    (f := fun ((name, origin, r) : String × Origin × Resource) =>
      planResource set (.ofSet set) p name origin r)
    (fun place => planResource_orderless set (.ofSet set) p place.1 place.2.1 place.2.2)
    (resourcePlaces set) _ _ log hnames
  rw [resourcePlaces] at hrun hrun'
  rw [StateT.run_bind, StateT.run_bind, hrun, hrun']
  rfl

theorem planAttributes_indexed :
    planAttributes set (SymbolTable.ofSet set).indexed p = planAttributes set (.ofSet set) p := by
  have hone (m : Module) (place : PlannedAttribute) (kept : KeptAttributes) (a : Attribute) :
      planAttribute set (SymbolTable.ofSet set).indexed p m place kept a =
        planAttribute set (.ofSet set) p m place kept a := by
    unfold planAttribute isOnly
    simp only [SymbolTable.attributeOrigins_indexed]
  unfold planAttributes
  simp only [hone]

/-- A plan does not depend on the order of the indices. -/
theorem build_indexed :
    build set (SymbolTable.ofSet set).indexed p = build set (.ofSet set) p := by
  unfold build
  simp only [placeTypes_indexed, planResources_indexed, planAttributes_indexed]
  rfl

end Plan

/-! ## Turns of workers -/

namespace Traversal.State

/-- A worker has done as many of its steps as it had turns. -/
theorem pending_run (s : State) (schedule : List Nat) (worker : Nat) :
    (s.run schedule).pending[worker]? =
      s.pending[worker]?.map (List.drop (schedule.count worker)) := by
  induction schedule generalizing s with
  | nil =>
    rw [run]
    cases s.pending[worker]? <;> rfl
  | cons next schedule ih =>
    have hperform (t : State) (e : Event) : (t.perform e).pending = t.pending := by cases e <;> rfl
    rw [run, List.count_cons]
    split
    case h_1 e rest hnext =>
      rw [ih, hperform, List.getElem?_set]
      by_cases heq : next = worker
      · subst heq
        obtain ⟨hlt, hsteps⟩ := List.getElem?_eq_some_iff.1 hnext
        simp [hlt, hsteps]
      · simp [heq]
    case h_2 hnext =>
      rw [ih]
      by_cases heq : next = worker
      · subst heq
        -- a turn of a worker without steps is passed over
        cases hleft : s.pending[next]? with
        | none => rfl
        | some left =>
          cases left with
          | nil => simp
          | cons e rest => exact absurd hleft (hnext e rest)
      · simp [heq]

/-- Turns for all workers in their order, again and again until each of them has done all its steps. -/
def rounds (s : State) : List Nat :=
  (List.replicate s.pending.flatten.length (List.range s.pending.length)).flatten

theorem count_rounds (s : State) {worker : Nat} (h : worker < s.pending.length) :
    s.rounds.count worker = s.pending.flatten.length := by
  have hround : (List.range s.pending.length).count worker = 1 :=
    List.count_eq_one_of_mem List.nodup_range (List.mem_range.2 h)
  unfold rounds
  rw [List.count_flatten, List.map_replicate, hround]
  simp

/-- The turns may be taken in any order. -/
theorem done_of_perm_rounds {s : State} {schedule : List Nat} (h : schedule.Perm s.rounds) :
    (s.run schedule).Done := by
  intro left hleft
  obtain ⟨worker, hworker⟩ := List.mem_iff_getElem?.1 hleft
  rw [pending_run, Option.map_eq_some_iff] at hworker
  obtain ⟨steps, hsteps, rfl⟩ := hworker
  obtain ⟨hlt, rfl⟩ := List.getElem?_eq_some_iff.1 hsteps
  rw [h.count_eq, count_rounds s hlt, List.drop_eq_nil_iff]
  exact (List.sublist_flatten_of_mem (List.getElem_mem hlt)).length_le

end Traversal.State

namespace Workers

open Traversal.State

/-- Workers that take turns in their order. -/
def inOrder : Workers where
  turns set := (start set).rounds
  done _ := done_of_perm_rounds (.refl _)
  listed := id
  listed_perm := .refl
  finished := id
  finished_perm := .refl

/-- Workers of which the last one is ahead of the others all along. -/
def backwards : Workers where
  turns set := (start set).rounds.reverse
  done _ := done_of_perm_rounds (List.reverse_perm _)
  listed := List.reverse
  listed_perm := List.reverse_perm
  finished := List.reverse
  finished_perm := List.reverse_perm

end Workers

/-! ## The work of workers -/

namespace Workers

variable (ws : Workers)

/-- Whatever turns the workers take, their table is that of the set with its indices in order. -/
theorem table_eq (set : ModuleSet) : ws.table set = (SymbolTable.ofSet set).indexed :=
  Traversal.freeze_eq_indexed (Traversal.run_steps _ _) (ws.done set) (ws.listed_perm _)

theorem fault?_eq_some {x : Except Fault TypeDef} {fault : Fault} :
    fault? x = some fault ↔ x = .error fault := by
  cases x <;> simp [fault?]

/-- Results that are collected are the results one after the other, but for the fault that is told of. -/
theorem collect_sameEnd (results : List (Except Fault TypeDef)) :
    SameEnd Eq (ws.collect results) (results.mapM id) := by
  unfold collect
  split
  case h_2 => exact .refl _
  case h_1 fault hfault =>
    obtain ⟨x, hx, hfault⟩ := List.exists_of_findSome?_eq_some hfault
    rw [fault?_eq_some] at hfault
    subst hfault
    -- one of the results is no type, so they cannot all be
    rcases hall : results.mapM id with fault' | types
    case error => exact .faults _ _
    case ok =>
      obtain ⟨type, htype⟩ := exists_of_mapM_eq_ok hall ((ws.finished_perm results).mem_iff.1 hx)
      cases htype

theorem writeAll_sameEnd (l : Linkage) (sub : Substitution) (shapes : List Shape) :
    SameEnd Eq (ws.writeAll l sub shapes) (Shape.writeAll l sub shapes) := by
  have hwrite : Shape.writeAll l sub shapes = (shapes.map (Shape.write l sub)).mapM id := by
    induction shapes with
    | nil => rfl
    | cons s rest ih =>
      rw [Shape.writeAll, ih, List.map_cons, List.mapM_cons]
      rfl
  rw [hwrite]
  exact ws.collect_sameEnd _

end Workers

namespace Merge

variable (ws : Workers)

theorem runBy_alike (set : ModuleSet) (plan : Plan) (policy : Policy) :
    Merging.Alike Eq (Relocation.runBy ws set plan policy) (Relocation.run set plan policy) := by
  unfold Relocation.runBy Relocation.run
  refine .bind (.refl _) ?_
  rintro laid _ rfl
  refine .bind (.refl _) ?_
  rintro attributes _ rfl
  refine .bind (.ofExcept (ws.writeAll_sameEnd _ _ _)) ?_
  rintro types _ rfl
  exact .refl _

theorem linkBy_alike (set : ModuleSet) (p : Policy) :
    Merging.Alike Eq (linkBy ws set p) (link set p) := by
  unfold linkBy link
  rw [ws.table_eq]
  refine .bind (.refl _) ?_
  rintro _ _ rfl
  rw [Plan.build_indexed]
  refine .bind (.refl _) ?_
  rintro plan _ rfl
  refine .bind (runBy_alike ws set plan p) ?_
  rintro m _ rfl
  exact .refl _

/-- However many workers there are, the merge goes as it does with one that does everything. -/
theorem modulesBy_alike (fs : FileSystem) (ms : List Module) (o : Options) :
    Merging.Alike Eq (modulesBy ws fs ms o) (modules fs ms o) := by
  unfold modulesBy modules
  refine .bind (.refl _) ?_
  rintro p _ rfl
  refine .bind (.refl _) ?_
  rintro set _ rfl
  refine .bind (linkBy_alike ws set p) ?_
  rintro linked _ rfl
  exact .refl _

end Merge

end ModuleLinker
