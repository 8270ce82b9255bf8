import ModuleLinker.Log
import ModuleLinker.Proofs.Computation
import ModuleLinker.Proofs.Reporting.Faults

namespace ModuleLinker

/-! # Notices that are left

What computations add to a log, and that there are no errors among it but those of conflicts.
-/

/-! ## What a computation adds to a log

A log only grows: a computation leaves the notices that are there and adds its own behind them. What it
answers and what it adds do not depend on the notices before, so both are said together.
-/

/-- The names of the entries of a kind that were left out. -/
def Log.duplicates (log : Log) (kind : String) : List String :=
  log.filterMap fun
    | .duplicate k name => if k = kind then some name else none
    | _ => none

namespace Log

theorem duplicates_append (log log' : Log) (kind : String) :
    (log ++ log').duplicates kind = log.duplicates kind ++ log'.duplicates kind :=
  List.filterMap_append

/-- Only a duplicate of the kind is one of them. -/
theorem duplicates_eq_nil {log : Log} {kind : String}
    (h : ∀ n ∈ log, ∀ name, n ≠ .duplicate kind name) : log.duplicates kind = [] := by
  refine List.filterMap_eq_nil_iff.2 fun n hn => ?_
  split
  case h_1 k name =>
    refine if_neg fun heq => ?_
    subst heq
    exact h _ hn name rfl
  case h_2 => rfl

end Log

namespace Logging

variable {σ α β : Type}

/-- Whatever was noted before, the computation answers and adds notices as the relation may. -/
def Adds (x : Logging α) (post : α → Log → Prop) : Prop :=
  ∀ log, ∃ added, (x.run log).2 = log ++ added ∧ post (x.run log).1 added

namespace Adds

variable {x : Logging α} {f : α → Logging β} {p : α → Log → Prop} {q : β → Log → Prop}

theorem pure {a : α} (h : p a []) : Adds (Pure.pure a) p :=
  fun log => ⟨[], (List.append_nil log).symm, h⟩

theorem note {n : Notice} {p : Unit → Log → Prop} (h : p () [n]) : Adds (note n) p :=
  fun _ => ⟨[n], rfl, h⟩

/-- What two parts add comes one after the other. -/
theorem bind (hx : Adds x p) (hf : ∀ a added, p a added → Adds (f a) fun b more => q b (added ++ more)) :
    Adds (x >>= f) q := by
  intro log
  obtain ⟨added, hadded, hp⟩ := hx log
  obtain ⟨more, hmore, hq⟩ := hf _ _ hp (x.run log).2
  refine ⟨added ++ more, ?_, hq⟩
  rw [← List.append_assoc, ← hadded]
  exact hmore

theorem mono {p' : α → Log → Prop} (hx : Adds x p) (h : ∀ a added, p a added → p' a added) :
    Adds x p' := by
  intro log
  obtain ⟨added, hadded, hp⟩ := hx log
  exact ⟨added, hadded, h _ _ hp⟩

/-- The same for a loop with a state of its own, of what has been done, answered, left and noted. -/
theorem mapM_state {step : α → StateT σ Logging β} {xs : List α} {s : σ}
    {motive : List α → List β → σ → Log → Prop} (hnil : motive [] [] s [])
    (hstep : ∀ done x rest, done ++ x :: rest = xs → ∀ bs s noted, motive done bs s noted →
      Adds ((step x).run s) fun r added => motive (done ++ [x]) (bs ++ [r.1]) r.2 (noted ++ added)) :
    Adds ((xs.mapM step).run s) fun r added => motive xs r.1 r.2 added := by
  suffices h : ∀ rest done bs s noted, done ++ rest = xs → motive done bs s noted →
      Adds ((rest.mapM step).run s) fun r added => motive xs (bs ++ r.1) r.2 (noted ++ added) from
    h xs [] [] s [] rfl hnil
  intro rest
  induction rest with
  | nil =>
    intro done bs s noted hxs hs
    rw [List.append_nil] at hxs
    rw [List.mapM_nil]
    exact pure (by rwa [List.append_nil, List.append_nil, ← hxs])
  | cons x rest ih =>
    intro done bs s noted hxs hs
    rw [List.mapM_cons, StateT.run_bind]
    refine (hstep done x rest hxs bs s noted hs).bind fun r added hr => ?_
    rw [StateT.run_bind]
    have hdone : (done ++ [x]) ++ rest = xs := by rw [List.append_assoc, List.singleton_append, hxs]
    refine (ih (done ++ [x]) (bs ++ [r.1]) r.2 (noted ++ added) hdone hr).bind fun r' more hr' => pure ?_
    rw [List.append_nil, ← List.append_assoc]
    rwa [List.append_assoc, List.singleton_append] at hr'

end Adds

/-- Whatever was noted before, `x` adds only notices as said. -/
def Tells (may : Notice → Prop) {α : Type} (x : Logging α) : Prop :=
  Adds x fun _ added => ∀ n ∈ added, may n

namespace Tells

variable {may may' : Notice → Prop} {x : Logging α}

theorem note {n : Notice} (h : may n) : Tells may (note n) := Adds.note (List.forall_mem_singleton.2 h)

theorem mono (hx : Tells may x) (h : ∀ n, may n → may' n) : Tells may' x :=
  Adds.mono hx fun _ _ hall n hn => h n (hall n hn)

theorem stepwise : Stepwise (@Tells may) := by
  refine ⟨fun _ => Adds.pure nofun, fun hx hf => Adds.bind hx fun a added hadded => ?_⟩
  exact Adds.mono (hf a) fun _ _ hmore => List.forall_mem_append.2 ⟨hadded, hmore⟩

end Tells

end Logging

/-- A merge goes on with what a part that cannot be stopped answers and adds. -/
theorem Merging.adds_lift {x : Logging α} {f : α → Merging β} {p : α → Log → Prop}
    {q : Except Fault β → Log → Prop} (hx : x.Adds p)
    (hf : ∀ a added, p a added → (f a).run.Adds fun b more => q b (added ++ more)) :
    ((liftM x : Merging α) >>= f).run.Adds q :=
  fun log => Logging.Adds.bind (f := fun a => (f a).run) hx hf log

/-! ## Errors among the notices

What stops a merge is said by whoever runs the merge, so the parts of a merge leave no errors among
their notices. A conflict is the exception: it is an error of the part that finds it.
-/

theorem Log.texts_append (log log' : Log) (level : Level) :
    (log ++ log').texts level = log.texts level ++ log'.texts level := by
  simp only [texts, List.filter_append, List.map_append]

namespace Logging

variable {σ α β : Type}

/-- Whatever was noted before, the computation answers and leaves errors among its notices as the
relation says. -/
def Leaves (x : Logging α) (post : α → List String → Prop) : Prop :=
  ∀ log, ∃ added, (x.run log).2 = log ++ added ∧ post (x.run log).1 (added.texts .error)

namespace Leaves

variable {x : Logging α} {f : α → Logging β} {p : α → List String → Prop} {q : β → List String → Prop}

theorem pure {a : α} (h : p a []) : Leaves (Pure.pure a) p :=
  fun log => ⟨[], (List.append_nil log).symm, h⟩

/-- The errors of two parts come one after the other. -/
theorem bind (hx : Leaves x p)
    (hf : ∀ a errors, p a errors → Leaves (f a) fun b more => q b (errors ++ more)) :
    Leaves (x >>= f) q := by
  intro log
  obtain ⟨added, hadded, hp⟩ := hx log
  obtain ⟨more, hmore, hq⟩ := hf _ _ hp (x.run log).2
  refine ⟨added ++ more, ?_, ?_⟩
  · rw [← List.append_assoc, ← hadded]
    exact hmore
  · rw [Log.texts_append]
    exact hq

end Leaves

/-- `x` leaves no errors among its notices. -/
def Quiet (x : Logging α) : Prop := Leaves x fun _ errors => errors = []

/-- The errors of what comes after a quiet part are all there are. -/
theorem Quiet.before {x : Logging α} {f : α → Logging β} {q : β → List String → Prop} (hx : Quiet x)
    (hf : ∀ a, Leaves (f a) q) : Leaves (x >>= f) q :=
  Leaves.bind hx fun a _ hnone => hnone ▸ hf a

namespace Quiet

theorem warn (text : String) : Quiet (warn text) := fun _ => ⟨[.warning text], rfl, rfl⟩

theorem info (text : String) : Quiet (info text) := fun _ => ⟨[.info text], rfl, rfl⟩

theorem verbose (text : String) : Quiet (verbose text) := fun _ => ⟨[.verbose text], rfl, rfl⟩

theorem duplicate (kind name : String) : Quiet (duplicate kind name) :=
  fun _ => ⟨[.duplicate kind name], rfl, rfl⟩

theorem files (fs : FileSystem) : Quiet (files fs) := fun log => ⟨[], (List.append_nil log).symm, rfl⟩

theorem stepwise : Stepwise @Quiet := ⟨fun _ => .pure rfl, fun hx hf => hx.before hf⟩

/-- Where all that is noted is no error, there are no errors among it. -/
theorem of_tells {may : Notice → Prop} {x : Logging α} (hx : Tells may x)
    (h : ∀ n, may n → n.level ≠ .error) : Quiet x := by
  intro log
  obtain ⟨added, hadded, hall⟩ := hx log
  refine ⟨added, hadded, List.map_eq_nil_iff.2 (List.filter_eq_nil_iff.2 fun n hn => ?_)⟩
  rw [beq_iff_eq]
  exact h n (hall n hn)

end Quiet

/-- The same for a computation with a state of its own, whatever the state is. -/
def QuietFrom (x : StateT σ Logging α) : Prop := ∀ s, Quiet (x.run s)

namespace QuietFrom

theorem lift {x : Logging α} (hx : Quiet x) : QuietFrom (liftM x : StateT σ Logging α) :=
  Quiet.stepwise.liftStateT hx

theorem get : QuietFrom (MonadState.get : StateT σ Logging σ) := fun _ => .pure rfl

theorem set (s : σ) : QuietFrom (MonadState.set s : StateT σ Logging PUnit) := fun _ => .pure rfl

theorem modifyGet (f : σ → α × σ) : QuietFrom (MonadState.modifyGet f : StateT σ Logging α) :=
  fun _ => .pure rfl

theorem stepwise : Stepwise (@QuietFrom σ) := Quiet.stepwise.stateT

end QuietFrom

end Logging

/-! ## Parts that may be stopped -/

open Logging

variable {σ α β : Type}

/-- The errors that a part leaves when it ends: a conflict is reported where it is found. -/
def Fault.noticed : Except Fault α → List String
  | .ok _ => []
  | .error fault => if fault.area = .conflict then [fault.message] else []

theorem Fault.Plain.noticed {fault : Fault} (h : fault.Plain) :
    Fault.noticed (.error fault : Except Fault α) = [] := if_neg h

/-- `x` reports a conflict that stops it, and leaves no errors otherwise. -/
def Merging.Reports (x : Merging α) : Prop :=
  Leaves x.run fun result errors => errors = Fault.noticed result

namespace Merging.Reports

theorem stepwise : Stepwise @Reports := by
  refine ⟨fun _ => Leaves.pure rfl, fun {α β x f} hx hf => ?_⟩
  refine Leaves.bind (f := ExceptT.bindCont f) hx ?_
  rintro (fault | a) _ rfl
  -- nothing is run after a fault
  case error => exact .pure (List.append_nil _)
  case ok => exact hf a

theorem lift {x : Logging α} (hx : Quiet x) : Reports (liftM x : Merging α) :=
  fun log => hx log

theorem ofExcept {x : Except Fault α} (hx : FailsOnly Fault.Plain x) : Reports (ofExcept x) := by
  refine Leaves.pure ?_
  cases x with
  | error fault => exact ((hx fault rfl).noticed).symm
  | ok a => rfl

theorem throw {fault : Fault} (h : fault.Plain) : Reports (MonadExcept.throw fault : Merging α) :=
  Leaves.pure h.noticed.symm

/-- A fault that is taken out of a part and brought back is noticed once. -/
theorem bringBack {x : Logging (Except Fault α × σ)} {f : Except Fault α × σ → Merging β}
    (hx : Leaves x fun r errors => errors = Fault.noticed r.1) (hok : ∀ a s, Reports (f (.ok a, s)))
    (herror : ∀ fault s, f (.error fault, s) = Merging.ofExcept (.error fault)) :
    Reports ((liftM x : Merging _) >>= f) := by
  refine Leaves.bind (f := fun r => (f r).run) hx ?_
  rintro ⟨fault | a, s⟩ _ rfl
  case error =>
    rw [herror]
    exact .pure (List.append_nil _)
  case ok => exact hok a s

end Merging.Reports

/-- The same for a part with a state of its own, whatever the state is. -/
def Logging.ReportsFrom (x : ExceptT Fault (StateT σ Logging) α) : Prop :=
  ∀ s, Leaves (x.run.run s) fun r errors => errors = Fault.noticed r.1

namespace Logging.ReportsFrom

theorem stepwise : Stepwise (@ReportsFrom σ) := by
  refine ⟨fun _ _ => Leaves.pure rfl, fun {α β x f} hx hf s => ?_⟩
  refine Leaves.bind (f := fun r => (ExceptT.bindCont f r.1).run r.2) (hx s) ?_
  rintro ⟨fault | a, s'⟩ _ rfl
  case error => exact .pure (List.append_nil _)
  case ok => exact hf a s'

theorem lift {x : StateT σ Logging α} (hx : QuietFrom x) :
    ReportsFrom (liftM x : ExceptT Fault (StateT σ Logging) α) :=
  fun s log => hx s log

theorem throw {fault : Fault} (h : fault.Plain) :
    ReportsFrom (MonadExcept.throw fault : ExceptT Fault (StateT σ Logging) α) :=
  fun _ => Leaves.pure h.noticed.symm

end Logging.ReportsFrom

end ModuleLinker
