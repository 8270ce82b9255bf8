import Mathlib.Data.List.Basic
import ModuleLinker.Fault

namespace ModuleLinker

/-! # Computations

Computations that may fail or keep a state, what their answers say about their steps, and what holds of a
sequence because it holds of its parts.
-/

/-! ## Computations that may fail

What an answer says about the steps of the computation that gave it. Of a computation with a state more is
said: it answers, and then something is known of the answer and of the state that it leaves, or it fails, and
then something is known of the fault.
-/

/-- A sequence answers if both parts do. -/
theorem bind_eq_ok {x : Except ε α} {f : α → Except ε β} {b : β} :
    x >>= f = .ok b ↔ ∃ a, x = .ok a ∧ f a = .ok b := by
  rcases x with e | a
  · exact ⟨nofun, fun ⟨_, h, _⟩ => nomatch h⟩
  · exact ⟨fun h => ⟨a, rfl, h⟩, fun ⟨_, ha, h⟩ => Except.ok.inj ha ▸ h⟩

theorem exists_eq_ok {x : Except ε α} (h : x.isOk) : ∃ a, x = .ok a := by
  rcases x with e | a
  · exact nomatch h
  · exact ⟨a, rfl⟩

theorem exists_of_map_toOption {x : Except ε α} {f : α → β} {b : β} (h : x.toOption.map f = some b) :
    ∃ a, x = .ok a ∧ f a = b := by
  rcases x with e | a
  · exact nomatch h
  · exact ⟨a, rfl, Option.some.inj h⟩

theorem map_eq_ok {x : Except ε α} {h : α → β} {b : β} :
    h <$> x = .ok b ↔ ∃ a, x = .ok a ∧ h a = b := by
  cases x with
  | error e => exact ⟨nofun, fun ⟨_, hx, _⟩ => nomatch hx⟩
  | ok a =>
    constructor
    · intro hb
      exact ⟨a, rfl, Except.ok.inj hb⟩
    · rintro ⟨_, ha, rfl⟩
      cases ha
      rfl

theorem exists_map_eq_ok {x : Except ε α} {f : α → β} : (∃ b, x.map f = .ok b) ↔ ∃ a, x = .ok a := by
  rcases x with e | a
  · exact ⟨nofun, nofun⟩
  · exact ⟨fun _ => ⟨a, rfl⟩, fun _ => ⟨f a, rfl⟩⟩

theorem map_eq_error {x : Except ε α} {h : α → β} {e : ε} :
    h <$> x = .error e ↔ x = .error e := by
  cases x with
  | error e' =>
    constructor
    · intro he
      exact congrArg _ (Except.error.inj he)
    · intro he
      exact congrArg _ (Except.error.inj he)
  | ok a => exact ⟨nofun, nofun⟩

/-- A list is answered if and only if each of its elements is. -/
theorem mapM_eq_ok_iff {f : α → Except ε β} {xs : List α} {ys : List β} :
    xs.mapM f = .ok ys ↔ xs.map f = ys.map .ok := by
  induction xs generalizing ys with
  | nil => cases ys <;> simp [pure, Except.pure]
  | cons x xs ih =>
    rw [List.mapM_cons, bind_eq_ok]
    cases ys with
    | nil =>
      constructor
      · rintro ⟨y, -, hrest⟩
        obtain ⟨ys, -, h⟩ := bind_eq_ok.1 hrest
        exact nomatch h
      · exact nofun
    | cons y ys =>
      rw [List.map_cons, List.map_cons, List.cons.injEq, ← ih]
      constructor
      · rintro ⟨z, hz, hrest⟩
        obtain ⟨zs, hzs, h⟩ := bind_eq_ok.1 hrest
        cases h
        exact ⟨hz, hzs⟩
      · rintro ⟨hy, hys⟩
        exact ⟨y, hy, bind_eq_ok.2 ⟨ys, hys, rfl⟩⟩

/-- Each element of a list that is answered has an answer, which is among those of the list. -/
theorem exists_mem_of_mapM_eq_ok {f : α → Except ε β} {xs : List α} {ys : List β}
    (h : xs.mapM f = .ok ys) {x : α} (hx : x ∈ xs) : ∃ y ∈ ys, f x = .ok y := by
  have hanswer : f x ∈ ys.map .ok := by
    rw [← mapM_eq_ok_iff.1 h]
    exact List.mem_map_of_mem hx
  obtain ⟨y, hy, heq⟩ := List.mem_map.1 hanswer
  exact ⟨y, hy, heq.symm⟩

theorem exists_of_mapM_eq_ok {f : α → Except ε β} {xs : List α} {ys : List β}
    (h : xs.mapM f = .ok ys) {x : α} (hx : x ∈ xs) : ∃ y, f x = .ok y := by
  obtain ⟨y, -, hy⟩ := exists_mem_of_mapM_eq_ok h hx
  exact ⟨y, hy⟩

/-- What every single answer has, all answers of a list have. -/
theorem forall_of_mapM_eq_ok {f : α → Except ε β} {p : β → Prop} (hf : ∀ x y, f x = .ok y → p y)
    {xs : List α} {ys : List β} (h : xs.mapM f = .ok ys) : ∀ y ∈ ys, p y := by
  intro y hy
  have hanswer : .ok y ∈ xs.map f := by
    rw [mapM_eq_ok_iff.1 h]
    exact List.mem_map_of_mem hy
  obtain ⟨x, -, hx⟩ := List.mem_map.1 hanswer
  exact hf x y hx

/-- A list of answers is there if each of them is. -/
theorem mapM_list_answers {f : α → Except ε β} {g : α → β} {xs : List α}
    (h : ∀ x ∈ xs, f x = .ok (g x)) : xs.mapM f = .ok (xs.map g) := by
  rw [mapM_eq_ok_iff, List.map_map]
  exact List.map_congr_left h

/-- A list of answers is the list of what each of them is known to be. -/
theorem mapM_list_ok {f : α → Except ε β} {g : α → β} {P : α → Prop} {xs : List α} {ys : List β}
    (hf : ∀ x y, f x = .ok y → y = g x ∧ P x) (h : xs.mapM f = .ok ys) :
    ys = xs.map g ∧ ∀ x ∈ xs, P x := by
  have heach (x : α) (hx : x ∈ xs) : f x = .ok (g x) ∧ P x := by
    obtain ⟨y, hy⟩ := exists_of_mapM_eq_ok h hx
    obtain ⟨rfl, hP⟩ := hf x y hy
    exact ⟨hy, hP⟩
  have hall : xs.mapM f = .ok (xs.map g) := mapM_list_answers fun x hx => (heach x hx).1
  exact ⟨Except.ok.inj (h.symm.trans hall), fun x hx => (heach x hx).2⟩

/-- Answers that are worked on again. -/
theorem mapM_of_mapM_eq_ok {f : α → Except ε β} {g : β → Except ε γ} {xs : List α} {ys : List β}
    (h : xs.mapM f = .ok ys) :
    ys.mapM g = xs.mapM fun x => f x >>= g := by
  rw [mapM_eq_ok_iff] at h
  induction xs generalizing ys with
  | nil =>
    obtain rfl := List.map_eq_nil_iff.1 h.symm
    rfl
  | cons x xs ih =>
    cases ys with
    | nil => exact nomatch h
    | cons y ys =>
      obtain ⟨hy, hys⟩ := List.cons.inj h
      rw [List.mapM_cons, List.mapM_cons, hy, ih hys]
      rfl

/-- The error of a list is that of its first element that has one. -/
theorem mapM_eq_error_iff {f : α → Except ε β} {xs : List α} {e : ε} : xs.mapM f = .error e ↔
    ∃ before x after, xs = before ++ x :: after ∧ (∀ y ∈ before, (f y).isOk) ∧ f x = .error e := by
  induction xs with
  | nil =>
    constructor
    · exact nofun
    · rintro ⟨before, x, after, h, -⟩
      exact absurd h.symm (by simp)
  | cons y ys ih =>
    rw [List.mapM_cons]
    constructor
    · intro h
      rcases hy : f y with e' | z
      · rw [hy] at h
        cases h
        exact ⟨[], y, ys, rfl, nofun, hy⟩
      · have hcons : List.cons z <$> ys.mapM f = .error e := by
          rw [hy] at h
          rw [map_eq_pure_bind]
          exact h
        obtain ⟨before, x, after, rfl, hbefore, hx⟩ := ih.1 (map_eq_error.1 hcons)
        exact ⟨y :: before, x, after, rfl, List.forall_mem_cons.2 ⟨by rw [hy]; rfl, hbefore⟩, hx⟩
    · rintro ⟨before, x, after, h, hbefore, hx⟩
      cases before with
      | nil =>
        obtain ⟨rfl, -⟩ := List.cons.inj h
        rw [hx]
        rfl
      | cons y' before =>
        obtain ⟨rfl, hys⟩ := List.cons.inj h
        obtain ⟨hy, hbefore⟩ := List.forall_mem_cons.1 hbefore
        obtain ⟨z, hz⟩ := exists_eq_ok hy
        rw [hz, ih.2 ⟨before, x, after, hys, hbefore, hx⟩]
        rfl

theorem mapM_option_ok {f : α → Except ε β} {g : α → β} {P : α → Prop} {x : Option α} {y : Option β}
    (hf : ∀ x y, f x = .ok y → y = g x ∧ P x) (h : x.mapM f = .ok y) :
    y = x.map g ∧ ∀ a ∈ x, P a := by
  rcases x with _ | a
  · cases h
    exact ⟨rfl, nofun⟩
  · have hbind : (f a >>= fun b => pure (some b)) = .ok y := h
    rcases bind_eq_ok.1 hbind with ⟨b, hb, hy⟩
    cases hy
    rcases hf a b hb with ⟨rfl, ha⟩
    exact ⟨rfl, by simpa using ha⟩

theorem mapM_option_answers {f : α → Except ε β} {g : α → β} {x : Option α}
    (h : ∀ a ∈ x, f a = .ok (g a)) : x.mapM f = .ok (x.map g) := by
  rcases x with _ | a
  · rfl
  · have hbind : (some a).mapM f = (f a >>= fun b => pure (some b)) := rfl
    rw [hbind, h a rfl]
    rfl

/-- The answers for a list depend on what is done with its elements alone. -/
theorem mapM_list_congr {m : Type u → Type v} [Monad m] [LawfulMonad m] {f g : α → m β} {xs : List α}
    (h : ∀ x ∈ xs, f x = g x) : xs.mapM f = xs.mapM g := by
  induction xs with
  | nil => rfl
  | cons x xs ih =>
    obtain ⟨hx, hxs⟩ := List.forall_mem_cons.1 h
    rw [List.mapM_cons, List.mapM_cons, hx, ih hxs]

/-- What follows on the answers for a list may rely on their number. -/
theorem bind_mapM_congr {m : Type u → Type v} [Monad m] [LawfulMonad m] {f : α → m β} {xs : List α}
    {k k' : List β → m γ} (h : ∀ ys, ys.length = xs.length → k ys = k' ys) :
    xs.mapM f >>= k = xs.mapM f >>= k' := by
  induction xs generalizing k k' with
  | nil => rw [List.mapM_nil, pure_bind, pure_bind, h [] rfl]
  | cons x xs ih =>
    simp only [List.mapM_cons, bind_assoc, pure_bind]
    apply bind_congr
    intro y
    apply ih
    intro ys hys
    exact h (y :: ys) (by rw [List.length_cons, List.length_cons, hys])

/-- One check after another answers if both do. -/
theorem andThen_eq_ok {x y : Except ε PUnit} :
    (x >>= fun _ => y) = .ok ⟨⟩ ↔ x = .ok ⟨⟩ ∧ y = .ok ⟨⟩ := by
  rw [bind_eq_ok]
  exact ⟨fun ⟨_, hx, hy⟩ => ⟨hx, hy⟩, fun ⟨hx, hy⟩ => ⟨_, hx, hy⟩⟩

/-- A loop over checks answers if each of them does. -/
theorem forM_list_ok {f : α → Except ε PUnit} {xs : List α} :
    xs.forM f = .ok ⟨⟩ ↔ ∀ x ∈ xs, f x = .ok ⟨⟩ := by
  induction xs with
  | nil => exact ⟨fun _ => nofun, fun _ => rfl⟩
  | cons x xs ih =>
    have hcons : (x :: xs).forM f = (f x >>= fun _ => xs.forM f) := rfl
    rw [hcons, andThen_eq_ok, List.forall_mem_cons, ih]

/-- What each step of a loop keeps holds of its answer. -/
theorem of_foldlM_eq_ok {f : β → α → Except ε β} {p : β → Prop} {xs : List α} {b c : β}
    (hb : p b) (hstep : ∀ b, ∀ x ∈ xs, ∀ c, p b → f b x = .ok c → p c) (h : xs.foldlM f b = .ok c) : p c := by
  induction xs generalizing b with
  | nil =>
    obtain rfl := Except.ok.inj h
    exact hb
  | cons x xs ih =>
    rw [List.foldlM_cons] at h
    obtain ⟨d, hd, hrest⟩ := bind_eq_ok.1 h
    exact ih (hstep b x List.mem_cons_self d hb hd)
      (fun b y hy => hstep b y (List.mem_cons_of_mem _ hy)) hrest

/-- A loop answers if each element is answered, where this does not depend on the steps before. -/
theorem exists_foldlM_iff {f : β → α → Except ε β} {p : α → Prop}
    (hf : ∀ b x, (∃ c, f b x = .ok c) ↔ p x) {xs : List α} {b : β} :
    (∃ c, xs.foldlM f b = .ok c) ↔ ∀ x ∈ xs, p x := by
  induction xs generalizing b with
  | nil => exact ⟨fun _ => nofun, fun _ => ⟨b, rfl⟩⟩
  | cons x xs ih =>
    rw [List.foldlM_cons, List.forall_mem_cons]
    constructor
    · rintro ⟨c, hc⟩
      obtain ⟨d, hd, hrest⟩ := bind_eq_ok.1 hc
      exact ⟨(hf b x).1 ⟨d, hd⟩, ih.1 ⟨c, hrest⟩⟩
    · rintro ⟨hx, hxs⟩
      obtain ⟨d, hd⟩ := (hf b x).2 hx
      obtain ⟨c, hrest⟩ := ih.2 hxs
      exact ⟨c, bind_eq_ok.2 ⟨d, hd, hrest⟩⟩

theorem foldlM_flatMap {f : β → γ → Except ε β} {g : α → List γ} {xs : List α} {b : β} :
    (xs.flatMap g).foldlM f b = xs.foldlM (fun b x => (g x).foldlM f b) b := by
  induction xs generalizing b with
  | nil => rfl
  | cons x xs ih =>
    rw [List.flatMap_cons, List.foldlM_append, List.foldlM_cons]
    exact bind_congr fun _ => ih

/-- A loop that fails does so at one of its steps. -/
theorem foldlM_eq_error {f : β → α → Except ε β} {xs : List α} {b : β} {e : ε}
    (h : xs.foldlM f b = .error e) : ∃ before x after c, xs = before ++ x :: after ∧
      before.foldlM f b = .ok c ∧ f c x = .error e := by
  induction xs generalizing b with
  | nil => exact nomatch h
  | cons x xs ih =>
    rw [List.foldlM_cons] at h
    rcases hfirst : f b x with e' | c
    · rw [hfirst] at h
      obtain rfl : e' = e := Except.error.inj h
      exact ⟨[], x, xs, b, rfl, rfl, hfirst⟩
    · rw [hfirst] at h
      obtain ⟨before, y, after, d, rfl, hbefore, hy⟩ := ih h
      refine ⟨x :: before, y, after, d, rfl, ?_, hy⟩
      rw [List.foldlM_cons, hfirst]
      exact hbefore

/-! ## Two computations that end alike -/

/-- Both fail with the same error, or both answer, with answers that are related. -/
inductive SameOutcome (r : α → β → Prop) : Except ε α → Except ε β → Prop where
  | error (e : ε) : SameOutcome r (.error e) (.error e)
  | ok {a : α} {b : β} (h : r a b) : SameOutcome r (.ok a) (.ok b)

namespace SameOutcome

variable {r : α → β → Prop} {x : Except ε α} {y : Except ε β}

theorem bind {s : α' → β' → Prop} {f : α → Except ε α'} {g : β → Except ε β'} (h : SameOutcome r x y)
    (hfg : ∀ a b, r a b → SameOutcome s (f a) (g b)) : SameOutcome s (x >>= f) (y >>= g) := by
  cases h with
  | error e => exact .error e
  | ok h => exact hfg _ _ h

theorem mapError (h : SameOutcome r x y) (f : ε → ε') : SameOutcome r (x.mapError f) (y.mapError f) := by
  cases h with
  | error e => exact .error (f e)
  | ok h => exact .ok h

theorem with_eq (h : SameOutcome r x y) : SameOutcome (fun a b => r a b ∧ x = .ok a ∧ y = .ok b) x y := by
  cases h with
  | error e => exact .error e
  | ok h => exact .ok ⟨h, rfl, rfl⟩

theorem imp {s : α → β → Prop} (h : SameOutcome r x y) (himp : ∀ a b, r a b → s a b) : SameOutcome s x y := by
  cases h with
  | error e => exact .error e
  | ok h => exact .ok (himp _ _ h)

theorem error_iff (h : SameOutcome r x y) (e : ε) : x = .error e ↔ y = .error e := by
  cases h with
  | error e' =>
    constructor
    · intro he
      exact congrArg _ (Except.error.inj he)
    · intro he
      exact congrArg _ (Except.error.inj he)
  | ok => exact ⟨nofun, nofun⟩

theorem exists_left {b : β} (h : SameOutcome r x (.ok b)) : ∃ a, x = .ok a ∧ r a b := by
  cases h with
  | ok h => exact ⟨_, rfl, h⟩

end SameOutcome

/-! ## Computations with a state -/

/-- The second part of a sequence is run from the state after the first one, unless that fails. -/
theorem run_bind (x : ExceptT ε (StateM σ) α) (f : α → ExceptT ε (StateM σ) β) (s : σ) :
    (x >>= f).run.run s =
      match x.run.run s with
      | (.ok a, t) => (f a).run.run t
      | (.error e, t) => (.error e, t) := by
  change (ExceptT.bindCont f (x.run.run s).1).run (x.run.run s).2 = _
  rcases x.run.run s with ⟨_ | _, t⟩ <;> rfl

/-- What follows an attempt is run from the state after it, also if it failed. -/
theorem run_attempt_bind {ε α : Type u} (x : ExceptT ε (StateM σ) α) (f : Except ε α → ExceptT ε' (StateM σ) β) (s : σ) :
    ((liftM x.run : ExceptT ε' (StateM σ) (Except ε α)) >>= f).run.run s =
      (f (x.run.run s).1).run.run (x.run.run s).2 := rfl

/-- A sequence answers if the first part does, and the second part from the state after it. -/
theorem run_bind_eq_ok {x : ExceptT ε (StateM σ) α} {f : α → ExceptT ε (StateM σ) β} {s s' : σ} {b : β}
    (h : (x >>= f).run.run s = (.ok b, s')) :
    ∃ a t, x.run.run s = (.ok a, t) ∧ (f a).run.run t = (.ok b, s') := by
  rw [run_bind] at h
  -- after a fault nothing is run, and no answer comes of it
  rcases hx : x.run.run s with ⟨e | a, t⟩
  · rw [hx] at h
    exact nomatch h
  · rw [hx] at h
    exact ⟨a, t, rfl, h⟩

/-- Where the first part of a sequence answers, the second part is run from the state after it. -/
theorem run_bind_of_ok {x : ExceptT ε (StateM σ) α} {f : α → ExceptT ε (StateM σ) β} {s t : σ} {a : α}
    (h : x.run.run s = (.ok a, t)) : (x >>= f).run.run s = (f a).run.run t := by
  rw [run_bind, h]

/-! ## Ends of computations with a state -/

/-- From this state on, `x` answers so that `post` holds, or fails so that `fails` does. -/
def Ends (s : σ) (x : ExceptT ε (StateM σ) α) (post : σ → α → Prop) (fails : ε → Prop) : Prop :=
  match x.run.run s with
  | (.ok a, s') => post s' a
  | (.error fault, _) => fails fault

namespace Ends

variable {s : σ} {x : ExceptT ε (StateM σ) α} {f : α → ExceptT ε (StateM σ) β} {p p' : σ → α → Prop}
  {q : σ → β → Prop} {fails : ε → Prop}

theorem pure {a : α} (h : p s a) : Ends s (Pure.pure a : ExceptT ε (StateM σ) α) p fails := h

theorem throw {fault : ε} (h : fails fault) :
    Ends s (MonadExcept.throw fault : ExceptT ε (StateM σ) α) p fails := h

theorem bind (hx : Ends s x p fails) (hf : ∀ a s', p s' a → Ends s' (f a) q fails) :
    Ends s (x >>= f) q fails := by
  unfold Ends at hx ⊢
  rw [run_bind]
  -- after a fault nothing is run
  rcases hrun : x.run.run s with ⟨fault | a, s'⟩
  · rw [hrun] at hx
    exact hx
  · rw [hrun] at hx
    exact hf a s' hx

theorem imp {fails' : ε → Prop} (hx : Ends s x p fails) (h : ∀ a s', p s' a → p' s' a)
    (hfails : ∀ fault, fails fault → fails' fault) : Ends s x p' fails' := by
  unfold Ends at hx ⊢
  rcases hrun : x.run.run s with ⟨fault | a, s'⟩
  · rw [hrun] at hx
    exact hfails fault hx
  · rw [hrun] at hx
    exact h a s' hx

theorem mono (hx : Ends s x p fails) (h : ∀ a s', p s' a → p' s' a) : Ends s x p' fails :=
  hx.imp h fun _ => id

theorem get {f : σ → ExceptT ε (StateM σ) β} (h : Ends s (f s) q fails) :
    Ends s (MonadState.get >>= f) q fails := h

theorem set {s' : σ} {p : σ → PUnit → Prop} (h : p s' ⟨⟩) :
    Ends s (MonadState.set s' : ExceptT ε (StateM σ) PUnit) p fails := h

theorem change {f : σ → σ} {p : σ → PUnit → Prop} (h : p (f s) ⟨⟩) :
    Ends s (modify f : ExceptT ε (StateM σ) PUnit) p fails := h

/-- What every step of a loop hands to the next one holds in the end. -/
theorem forM {xs : List β} {f : β → ExceptT ε (StateM σ) PUnit} {motive : List β → σ → Prop}
    (hnil : motive [] s)
    (hstep : ∀ done x rest, done ++ x :: rest = xs → ∀ s, motive done s →
      Ends s (f x) (fun s' _ => motive (done ++ [x]) s') fails) :
    Ends s (xs.forM f) (fun s' _ => motive xs s') fails := by
  suffices h : ∀ rest done s, done ++ rest = xs → motive done s →
      Ends s (rest.forM f) (fun s' _ => motive xs s') fails from h xs [] s rfl hnil
  intro rest
  induction rest with
  | nil =>
    intro done s hxs hs
    rw [List.append_nil] at hxs
    exact pure (hxs ▸ hs)
  | cons x rest ih =>
    intro done s hxs hs
    refine (hstep done x rest hxs s hs).bind fun _ s' hs' => ih (done ++ [x]) s' ?_ hs'
    rw [List.append_assoc, List.singleton_append, hxs]

/-- The same for a loop that collects answers. -/
theorem mapM {xs : List β} {f : β → ExceptT ε (StateM σ) α} {motive : List β → List α → σ → Prop}
    (hnil : motive [] [] s)
    (hstep : ∀ done x rest, done ++ x :: rest = xs → ∀ as s, motive done as s →
      Ends s (f x) (fun s' a => motive (done ++ [x]) (as ++ [a]) s') fails) :
    Ends s (xs.mapM f) (fun s' as => motive xs as s') fails := by
  suffices h : ∀ rest done as s, done ++ rest = xs → motive done as s →
      Ends s (rest.mapM f) (fun s' more => motive xs (as ++ more) s') fails from h xs [] [] s rfl hnil
  intro rest
  induction rest with
  | nil =>
    intro done as s hxs hs
    rw [List.append_nil] at hxs
    rw [List.mapM_nil]
    exact pure (by rwa [List.append_nil, ← hxs])
  | cons x rest ih =>
    intro done as s hxs hs
    rw [List.mapM_cons]
    refine (hstep done x rest hxs as s hs).bind fun a s' hs' => ?_
    refine (ih (done ++ [x]) (as ++ [a]) s' ?_ hs').bind fun more s'' hs'' => pure ?_
    · rw [List.append_assoc, List.singleton_append, hxs]
    · rwa [List.append_assoc, List.singleton_append] at hs''

theorem of_cases (hok : ∀ a s', x.run.run s = (.ok a, s') → p s' a)
    (herror : ∀ fault s', x.run.run s = (.error fault, s') → fails fault) : Ends s x p fails := by
  unfold Ends
  rcases hrun : x.run.run s with ⟨fault | a, s'⟩
  · exact herror fault s' hrun
  · exact hok a s' hrun

/-- What is known of the answer that there is. -/
theorem of_run (hx : Ends s x p fails) {a : α} {s' : σ} (h : x.run.run s = (.ok a, s')) : p s' a := by
  unfold Ends at hx
  rwa [h] at hx

/-- An answer is enough to know how a computation ends. -/
theorem of_eq {a : α} {s' : σ} (h : x.run.run s = (.ok a, s')) (hp : p s' a) : Ends s x p fails := by
  unfold Ends
  rwa [h]

/-- What cannot fail answers. -/
theorem exists_ok (hx : Ends s x p fun _ => False) : ∃ a s', x.run.run s = (.ok a, s') ∧ p s' a := by
  unfold Ends at hx
  rcases hrun : x.run.run s with ⟨fault | a, s'⟩
  · rw [hrun] at hx
    exact hx.elim
  · rw [hrun] at hx
    exact ⟨a, s', rfl, hx⟩

theorem of_error (hx : Ends s x p fails) {fault : ε} {s' : σ} (h : x.run.run s = (.error fault, s')) :
    fails fault := by
  unfold Ends at hx
  rwa [h] at hx

end Ends

/-! ## Properties that go along with steps

Some properties of computations hold of a sequence if they hold of both parts, whatever the first part
answers. They hold of loops then, and of everything else that is put together of parts that have them.
-/

/-- A property of computations that plain answers have, and that goes along with sequences. -/
structure Stepwise {m : Type → Type} [Monad m] (T : (α : Type) → m α → Prop) : Prop where
  pure {α : Type} (a : α) : T α (Pure.pure a)
  bind {α β : Type} {x : m α} {f : α → m β} (hx : T α x) (hf : ∀ a, T β (f a)) : T β (x >>= f)

namespace Stepwise

section

variable {m : Type → Type} [Monad m] {T : (α : Type) → m α → Prop} {α β : Type}

theorem map [LawfulMonad m] (h : Stepwise T) {x : m α} (hx : T α x) (f : α → β) : T β (f <$> x) := by
  rw [map_eq_pure_bind]
  exact h.bind hx fun _ => h.pure _

theorem mapM [LawfulMonad m] (h : Stepwise T) {f : α → m β} (hf : ∀ a, T β (f a)) (xs : List α) :
    T (List β) (xs.mapM f) := by
  induction xs with
  | nil =>
    rw [List.mapM_nil]
    exact h.pure _
  | cons x xs ih =>
    rw [List.mapM_cons]
    exact h.bind (hf x) fun _ => h.bind ih fun _ => h.pure _

theorem optionMapM [LawfulMonad m] (h : Stepwise T) {f : α → m β} (hf : ∀ a, T β (f a)) (x : Option α) :
    T (Option β) (x.mapM f) := by
  cases x with
  | none => exact h.pure _
  | some a => exact h.map (hf a) some

theorem foldlM (h : Stepwise T) {step : β → α → m β} (hstep : ∀ b a, T β (step b a))
    (xs : List α) (b : β) : T β (xs.foldlM step b) := by
  induction xs generalizing b with
  | nil => exact h.pure b
  | cons x xs ih =>
    rw [List.foldlM_cons]
    exact h.bind (hstep b x) ih

theorem forM (h : Stepwise T) {f : α → m PUnit} (hf : ∀ a, T PUnit (f a)) (xs : List α) :
    T PUnit (xs.forM f) := by
  induction xs with
  | nil => exact h.pure _
  | cons x xs ih => exact h.bind (hf x) fun _ => ih

theorem forIn (h : Stepwise T) {f : α → β → m (ForInStep β)} (hf : ∀ a b, T (ForInStep β) (f a b))
    (xs : List α) (b : β) : T β (ForIn.forIn xs b f) := by
  induction xs generalizing b with
  | nil => exact h.pure b
  | cons x xs ih =>
    rw [List.forIn_cons]
    refine h.bind (hf x b) fun next => ?_
    cases next with
    | done b => exact h.pure b
    | yield b => exact ih b

/-- A computation with a state of its own has a property if it has it from every state. -/
theorem stateT (h : Stepwise T) :
    Stepwise (m := StateT σ m) fun α x => ∀ s, T (α × σ) (x.run s) :=
  ⟨fun a s => h.pure (a, s), fun hx hf s => h.bind (hx s) fun r => hf r.1 r.2⟩

/-- A computation that may be stopped has a property if it has it as one that answers a fault. -/
theorem exceptT (h : Stepwise T) : Stepwise (m := ExceptT ε m) fun α x => T (Except ε α) x.run := by
  refine ⟨fun a => h.pure (Except.ok a), fun hx hf => h.bind hx ?_⟩
  rintro (e | a)
  case error => exact h.pure (Except.error e)
  case ok => exact hf a

theorem liftStateT (h : Stepwise T) {x : m α} (hx : T α x) (s : σ) :
    T (α × σ) ((liftM x : StateT σ m α).run s) :=
  h.bind (f := fun a => Pure.pure (a, s)) hx fun _ => h.pure _

theorem liftExceptT [LawfulMonad m] (h : Stepwise T) {x : m α} (hx : T α x) :
    T (Except ε α) (liftM x : ExceptT ε m α).run :=
  h.map hx Except.ok

end

end Stepwise

/-! ## Faults -/

/-- `x` fails with faults as said and no others. -/
def FailsOnly (fails : ε → Prop) {α : Type} (x : Except ε α) : Prop := ∀ e, x = .error e → fails e

namespace FailsOnly

variable {ε α β : Type} {fails : ε → Prop}

theorem ok (a : α) : FailsOnly fails (.ok a : Except ε α) := nofun

theorem error {e : ε} (h : fails e) : FailsOnly fails (.error e : Except ε α) :=
  fun _ heq => Except.error.inj heq ▸ h

theorem stepwise : Stepwise (@FailsOnly ε fails) := by
  refine ⟨ok, fun {α β x f} hx hf => ?_⟩
  cases x with
  | error e => exact error (hx e rfl)
  | ok a => exact hf a

theorem map {x : Except ε α} (hx : FailsOnly fails x) (f : α → β) : FailsOnly fails (x.map f) := by
  cases x with
  | error e => exact error (hx e rfl)
  | ok a => exact ok (f a)

end FailsOnly

/-- From every state, `x` fails with faults as said and no others. -/
def StopsOnly (fails : ε → Prop) {σ α : Type} (x : ExceptT ε (StateM σ) α) : Prop :=
  ∀ s, Ends s x (fun _ _ => True) fails

namespace StopsOnly

variable {ε σ α β : Type} {fails : ε → Prop}

theorem throw {e : ε} (h : fails e) :
    StopsOnly fails (MonadExcept.throw e : ExceptT ε (StateM σ) α) :=
  fun _ => Ends.throw h

theorem get : StopsOnly fails (MonadState.get : ExceptT ε (StateM σ) σ) := fun _ => trivial

theorem set (s : σ) : StopsOnly fails (MonadState.set s : ExceptT ε (StateM σ) PUnit) :=
  fun _ => trivial

theorem modify (f : σ → σ) : StopsOnly fails (modify f : ExceptT ε (StateM σ) PUnit) :=
  fun _ => trivial

/-- What cannot fail stops nothing. -/
theorem lift (x : StateM σ α) : StopsOnly fails (liftM x : ExceptT ε (StateM σ) α) := fun _ => trivial

theorem stepwise : Stepwise (@StopsOnly ε fails σ) :=
  ⟨fun _ _ => trivial, fun hx hf s => (hx s).bind fun a s' _ => hf a s'⟩

/-- The answer of a run. -/
theorem failsOnly {x : ExceptT ε (StateM σ) α} (h : StopsOnly fails x) (s : σ) :
    FailsOnly fails (x.run.run s).1 := by
  intro e he
  exact (h s).of_error (Prod.ext he rfl)

end StopsOnly

end ModuleLinker
