import ModuleLinker.Plan.Basic
import ModuleLinker.Proofs.FreshNames

namespace ModuleLinker

/-! # Computations that leave notices

Notices are left for those who run a merge, and nothing depends on them. What a computation answers
is therefore said for whatever was noted before; where it takes names, for the names that it starts
from.
-/

/-- The answer of `x` has the property, whatever was noted before. -/
def Logging.Answers (x : Logging α) (post : α → Prop) : Prop := ∀ log, post (x.run log).1

namespace Logging.Answers

variable {x : Logging α} {f : α → Logging β}

theorem pure {post : α → Prop} {a : α} (h : post a) : Answers (Pure.pure a) post := fun _ => h

theorem bind {post : β → Prop} (h : ∀ a, Answers (f a) post) : Answers (x >>= f) post :=
  fun log => h (x.run log).1 (x.run log).2

theorem seq {p : α → Prop} {q : β → Prop} (hx : x.Answers p) (hf : ∀ a, p a → Answers (f a) q) :
    Answers (x >>= f) q :=
  fun log => hf (x.run log).1 (hx log) (x.run log).2

/-- Whatever an element is turned into is known from the element alone. -/
theorem mapM {step : α → Logging β} {g : α → β} (hstep : ∀ a, (step a).Answers (· = g a))
    (xs : List α) : Answers (xs.mapM step) (· = xs.map g) := by
  induction xs with
  | nil =>
    rw [List.mapM_nil]
    exact pure rfl
  | cons a xs ih =>
    rw [List.mapM_cons]
    refine (hstep a).seq ?_
    rintro _ rfl
    refine ih.seq ?_
    rintro _ rfl
    exact pure rfl

/-- What each step keeps holds in the end; `motive` speaks of the elements that are done with. -/
theorem foldlM_done {step : α → β → Logging α} {motive : List β → α → Prop} {xs : List β} {a : α}
    (hnil : motive [] a)
    (hstep : ∀ done x rest, done ++ x :: rest = xs → ∀ a, motive done a →
      (step a x).Answers (motive (done ++ [x]))) :
    Answers (xs.foldlM step a) (motive xs) := by
  suffices h : ∀ rest done a, done ++ rest = xs → motive done a →
      Answers (rest.foldlM step a) (motive xs) from h xs [] a rfl hnil
  intro rest
  induction rest with
  | nil =>
    intro done a hxs ha
    rw [List.append_nil] at hxs
    exact pure (hxs ▸ ha)
  | cons x rest ih =>
    intro done a hxs ha
    rw [List.foldlM_cons]
    refine (hstep done x rest hxs a ha).seq fun b hb => ih (done ++ [x]) b ?_ hb
    rw [List.append_assoc, List.singleton_append, hxs]

/-- The same where it does not matter what is done with. -/
theorem foldlM {step : α → β → Logging α} {p : α → Prop} {xs : List β}
    (hstep : ∀ x ∈ xs, ∀ a, p a → (step a x).Answers p) {a : α} (ha : p a) :
    Answers (xs.foldlM step a) p :=
  foldlM_done (motive := fun _ => p) ha fun _ x _ hxs => hstep x (by simp [← hxs])

/-- What each step keeps holds in the end of a loop with a state of its own; `motive` speaks of what has
been done, answered and left. -/
theorem mapM_state {step : α → StateT σ Logging β} {xs : List α} {s : σ}
    {motive : List α → List β → σ → Prop} (hnil : motive [] [] s)
    (hstep : ∀ done x rest, done ++ x :: rest = xs → ∀ bs s, motive done bs s →
      Answers ((step x).run s) fun r => motive (done ++ [x]) (bs ++ [r.1]) r.2) :
    Answers ((xs.mapM step).run s) fun r => motive xs r.1 r.2 := by
  suffices h : ∀ rest done bs s, done ++ rest = xs → motive done bs s →
      Answers ((rest.mapM step).run s) fun r => motive xs (bs ++ r.1) r.2 from h xs [] [] s rfl hnil
  intro rest
  induction rest with
  | nil =>
    intro done bs s hxs hs
    rw [List.append_nil] at hxs
    rw [List.mapM_nil]
    exact pure (by rwa [List.append_nil, ← hxs])
  | cons x rest ih =>
    intro done bs s hxs hs
    rw [List.mapM_cons, StateT.run_bind]
    refine (hstep done x rest hxs bs s hs).seq fun r hr => ?_
    rw [StateT.run_bind]
    refine (ih (done ++ [x]) (bs ++ [r.1]) r.2 ?_ hr).seq fun r' hr' => pure ?_
    · rw [List.append_assoc, List.singleton_append, hxs]
    · rwa [List.append_assoc, List.singleton_append] at hr'

end Logging.Answers

/-- A merge goes on with what a part that cannot be stopped answers. -/
theorem Merging.answers_lift {x : Logging α} {f : α → Merging β} {p : α → Prop}
    {q : Except Fault β → Prop} (hx : x.Answers p) (hf : ∀ a, p a → (f a).run.Answers q) :
    ((liftM x : Merging α) >>= f).run.Answers q :=
  fun log => hf (x.run log).1 (hx log) (x.run log).2

theorem Merging.ofExcept_ok_bind (a : α) (f : α → Merging β) : ofExcept (.ok a) >>= f = f a := rfl

/-! ## Computations that take names -/

/-- From the names `names` the computation answers as the relation says, which speaks of the answer
and of the names that are taken afterwards. -/
def Naming.Yields (x : Naming α) (names : FreshNames) (post : α → FreshNames → Prop) : Prop :=
  (x.run names).Answers fun r => post r.1 r.2

namespace Naming.Yields

variable {x : Naming α} {f : α → Naming β} {names : FreshNames} {p : α → FreshNames → Prop}
  {q : β → FreshNames → Prop}

theorem pure {a : α} (h : p a names) : Yields (Pure.pure a) names p := fun _ => h

theorem bind (hx : Yields x names p) (hf : ∀ a names', p a names' → Yields (f a) names' q) :
    Yields (x >>= f) names q :=
  Logging.Answers.seq hx fun r hr => hf r.1 r.2 hr

theorem mono {p' : α → FreshNames → Prop} (hx : Yields x names p)
    (h : ∀ a names', p a names' → p' a names') : Yields x names p' :=
  fun log => h _ _ (hx log)

/-- Notices take no names. -/
theorem verbose (text : String) :
    Yields (liftM (Logging.verbose text) : Naming Unit) names fun _ names' => names' = names :=
  fun _ => rfl

theorem error (text : String) :
    Yields (liftM (Logging.error text) : Naming Unit) names fun _ names' => names' = names :=
  fun _ => rfl

/-- A fresh name for a type is one that nothing had in its namespace. -/
theorem fresh (d : Declaration) :
    Yields (Naming.fresh d) names fun name names' =>
      names.Takes [qualifiedName d.type.namespaceName name] names' :=
  fun _ => names.rename_takes ..

end Naming.Yields

end ModuleLinker
