import Mathlib.Data.List.Nodup
import ModuleLinker.Loading
import ModuleLinker.Proofs.Repetition

namespace ModuleLinker

/-! # Following references

The references in a queue are tried one after another, each name once, and those of a module that is found go
behind the others. What is tried in the end is described without the queue: by how many modules a reference is
reached through, and by which references of which modules come first.
-/

namespace Loading

/-! ## Breadth first -/

section

variable {behind : String → List Identity} {excluded : List String} {start queue order : List Identity}
  {identity : Identity} {name : String} {k : Nat}

/-- A name is reached through `k` modules: one of the references at the start has it, or a reference of the
module behind a name that is reached through one module less. Nothing is behind excluded names. -/
inductive Reached (behind : String → List Identity) (excluded : List String) (start : List Identity) :
    Nat → String → Prop
  | start {r : Identity} (hr : r ∈ start) : Reached behind excluded start 0 r.name
  | behind {k : Nat} {name : String} {r : Identity} (h : Reached behind excluded start k name)
      (hname : name ∉ excluded) (hr : r ∈ behind name) : Reached behind excluded start (k + 1) r.name

/-- The references in a queue and those behind them in the order in which they are tried. -/
structure BreadthFirst (behind : String → List Identity) (excluded : List String)
    (queue order : List Identity) : Prop where
  order_eq : order = firsts Identity.name excluded (queue ++ order.flatMap fun r => behind r.name)
  sourced : ∀ before r after, order = before ++ r :: after →
    r ∈ queue ++ before.flatMap fun r => behind r.name

theorem mem_map_firsts_iff {rs : List Identity} :
    name ∈ (firsts Identity.name excluded rs).map Identity.name ↔
      name ∉ excluded ∧ name ∈ rs.map Identity.name := by
  constructor
  · intro h
    obtain ⟨r, hr, rfl⟩ := List.mem_map.1 h
    exact ⟨(nodup_map_firsts _ _ _).2 r hr, List.mem_map_of_mem ((firsts_sublist _ _ _).subset hr)⟩
  · rintro ⟨hname, h⟩
    obtain ⟨r, hr, rfl⟩ := List.mem_map.1 h
    obtain ⟨r', hr', heq⟩ := exists_mem_firsts hr hname
    rw [← heq]
    exact List.mem_map_of_mem hr'

namespace BreadthFirst

theorem nil : BreadthFirst behind excluded [] [] where
  order_eq := rfl
  sourced := by simp

/-- A reference whose name was tried is passed over. -/
theorem skip (htried : identity.name ∈ excluded) (h : BreadthFirst behind excluded queue order) :
    BreadthFirst behind excluded (identity :: queue) order where
  order_eq := by
    rw [List.cons_append, firsts, if_pos htried]
    exact h.order_eq
  sourced := fun before r after heq => List.mem_cons_of_mem _ (h.sourced before r after heq)

/-- A reference is tried, and what is behind it joins the queue. -/
theorem step (hnew : identity.name ∉ excluded)
    (h : BreadthFirst behind (identity.name :: excluded) (queue ++ behind identity.name) order) :
    BreadthFirst behind excluded (identity :: queue) (identity :: order) where
  order_eq := by
    have hseen : ∀ name, name ∈ excluded ++ [identity.name] ↔ name ∈ identity.name :: excluded := by
      intro name
      rw [List.mem_append, List.mem_singleton, List.mem_cons, or_comm]
    rw [List.cons_append, firsts, if_neg hnew, firsts_congr hseen, List.flatMap_cons, ← List.append_assoc]
    exact congrArg _ h.order_eq
  sourced := by
    intro before r after heq
    cases before with
    | nil =>
      obtain ⟨rfl, -⟩ := List.cons.inj heq
      exact List.mem_cons_self
    | cons first before =>
      obtain ⟨rfl, hrest⟩ := List.cons.inj heq
      rw [List.flatMap_cons, List.cons_append, ← List.append_assoc]
      exact List.mem_cons_of_mem _ (h.sourced before r after hrest)

theorem nodup (h : BreadthFirst behind excluded start order) : (order.map Identity.name).Nodup := by
  rw [h.order_eq]
  exact (nodup_map_firsts _ _ _).1

theorem not_mem_excluded (h : BreadthFirst behind excluded start order) {r : Identity} (hr : r ∈ order) :
    r.name ∉ excluded := by
  rw [h.order_eq] at hr
  exact (nodup_map_firsts _ _ _).2 r hr

/-- What is tried is reached, by induction on how much was tried before it. -/
theorem exists_reached (h : BreadthFirst behind excluded start order) {before after : List Identity} {r : Identity}
    (heq : order = before ++ r :: after) : ∃ k, Reached behind excluded start k r.name := by
  induction hlength : before.length using Nat.strongRecOn generalizing before r after with
  | _ n ih =>
    rcases List.mem_append.1 (h.sourced before r after heq) with hstart | hbehind
    · exact ⟨0, .start hstart⟩
    · obtain ⟨source, hsource, hr⟩ := List.mem_flatMap.1 hbehind
      obtain ⟨before', after', rfl⟩ := List.append_of_mem hsource
      have hshorter : before'.length < n := by
        rw [← hlength, List.length_append, List.length_cons]
        omega
      have heq' : order = before' ++ source :: (after' ++ r :: after) := by
        rw [heq, List.append_assoc, List.cons_append]
      obtain ⟨k, hk⟩ := ih _ hshorter heq' rfl
      have hmem : source ∈ order := by
        rw [heq]
        exact List.mem_append_left _ hsource
      exact ⟨k + 1, .behind hk (h.not_mem_excluded hmem) hr⟩

/-- Those that are reached through at most `k` modules come first, by induction on `k`: what is behind the first
ones precedes what is behind the others. -/
theorem exists_prefix (h : BreadthFirst behind excluded start order) (k : Nat) :
    ∃ before after, order = before ++ after ∧
      ∀ name, name ∈ before.map Identity.name ↔
        name ∉ excluded ∧ ∃ j ≤ k, Reached behind excluded start j name := by
  induction k with
  | zero =>
    refine ⟨firsts Identity.name excluded start, _, h.order_eq.trans (firsts_append _ _ _ _), ?_⟩
    intro name
    rw [mem_map_firsts_iff]
    refine and_congr_right fun _ => ?_
    constructor
    · intro hname
      obtain ⟨r, hr, rfl⟩ := List.mem_map.1 hname
      exact ⟨0, Nat.le_refl _, .start hr⟩
    · rintro ⟨j, hj, hreached⟩
      obtain rfl := Nat.le_zero.1 hj
      cases hreached with
      | start hr => exact List.mem_map_of_mem hr
  | succ k ih =>
    obtain ⟨before, after, heq, hbefore⟩ := ih
    have horder := h.order_eq
    rw [heq, List.flatMap_append, ← List.append_assoc, firsts_append, ← heq] at horder
    refine ⟨_, _, horder, ?_⟩
    intro name
    rw [mem_map_firsts_iff]
    refine and_congr_right fun _ => ?_
    rw [List.map_append, List.mem_append]
    constructor
    · rintro (hstart | hbehind)
      · obtain ⟨r, hr, rfl⟩ := List.mem_map.1 hstart
        exact ⟨0, Nat.zero_le _, .start hr⟩
      · obtain ⟨r, hr, rfl⟩ := List.mem_map.1 hbehind
        obtain ⟨source, hsource, hr⟩ := List.mem_flatMap.1 hr
        obtain ⟨hnot, j, hj, hreached⟩ := (hbefore source.name).1 (List.mem_map_of_mem hsource)
        exact ⟨j + 1, Nat.succ_le_succ hj, .behind hreached hnot hr⟩
    · rintro ⟨j, hj, hreached⟩
      cases hreached with
      | start hr => exact .inl (List.mem_map_of_mem hr)
      | behind hreached hnot hr =>
        obtain ⟨source, hsource, rfl⟩ :=
          List.mem_map.1 ((hbefore _).2 ⟨hnot, _, Nat.le_of_succ_le_succ hj, hreached⟩)
        exact .inr (List.mem_map_of_mem (List.mem_flatMap.2 ⟨source, hsource, hr⟩))

/-- A name is tried if and only if it is reached and not excluded. -/
theorem mem_iff (h : BreadthFirst behind excluded start order) (name : String) :
    name ∈ order.map Identity.name ↔ name ∉ excluded ∧ ∃ k, Reached behind excluded start k name := by
  constructor
  · intro hname
    obtain ⟨r, hr, rfl⟩ := List.mem_map.1 hname
    obtain ⟨before, after, heq⟩ := List.append_of_mem hr
    exact ⟨h.not_mem_excluded hr, h.exists_reached heq⟩
  · rintro ⟨hnot, k, hreached⟩
    obtain ⟨before, after, heq, hbefore⟩ := h.exists_prefix k
    rw [heq, List.map_append]
    exact List.mem_append_left _ ((hbefore name).2 ⟨hnot, k, Nat.le_refl _, hreached⟩)

/-- What is tried later is reached through no fewer modules. -/
theorem pairwise (h : BreadthFirst behind excluded start order) :
    order.Pairwise fun r s => ∀ k, Reached behind excluded start k s.name →
      ∃ j ≤ k, Reached behind excluded start j r.name := by
  rw [List.pairwise_iff_forall_sublist]
  intro r s hsublist k hreached
  obtain ⟨before, after, heq, hbefore⟩ := h.exists_prefix k
  have hs : s ∈ order := hsublist.subset (by simp)
  have hfirst := (hbefore s.name).2 ⟨h.not_mem_excluded hs, k, Nat.le_refl _, hreached⟩
  -- `s` is among the first ones only, and so is what stands before it
  have hlast : s ∉ after := by
    intro hafter
    have hnodup := h.nodup
    rw [heq, List.map_append] at hnodup
    exact List.disjoint_of_nodup_append hnodup hfirst (List.mem_map_of_mem hafter)
  have hr : r ∈ before := by
    rw [heq] at hsublist
    obtain ⟨first, last, hpair, hsub, hrest⟩ := List.sublist_append_iff.1 hsublist
    rcases List.eq_nil_or_concat last with rfl | ⟨last, x, rfl⟩
    · rw [List.append_nil] at hpair
      exact hsub.subset (hpair ▸ List.mem_cons_self)
    · rw [List.concat_eq_append] at hpair hrest
      have hpair' : [r] ++ [s] = (first ++ last) ++ [x] := by
        rw [List.append_assoc]
        exact hpair
      obtain ⟨-, hx⟩ := List.append_inj' hpair' rfl
      obtain rfl : s = x := List.singleton_inj.1 hx
      exact absurd (hrest.subset (by simp)) hlast
  exact ((hbefore r.name).1 (List.mem_map_of_mem hr)).2

end BreadthFirst

end

/-! ## The queue -/

section

variable {find? : String → Option Path} {read : Path → Logging (Except Fault Module)}
  {load? : Path → Option Module}

/-- The module that is found for a name. -/
def provided? (find? : String → Option Path) (load? : Path → Option Module) (name : String) :
    Option LoadedModule :=
  match find? name with
  | none => none
  | some path => (load? path).map fun m => ⟨path, m⟩

/-- The references of the module that is found for a name. -/
def behind (find? : String → Option Path) (load? : Path → Option Module) (name : String) : List Identity :=
  match provided? find? load? name with
  | none => []
  | some l => l.module.references

/-- What is found by reading does not depend on the notices, and reading leaves none. -/
def Steady (read : Path → Logging (Except Fault Module)) (load? : Path → Option Module) : Prop :=
  ∀ path log, ∃ result, (read path).run log = (result, log) ∧ result.toOption = load? path

/-- The notices that trying a reference may leave where there is a file for it. -/
inductive Told (find? : String → Option Path) (read : Path → Logging (Except Fault Module))
    (load? : Path → Option Module) (r : Identity) : Notice → Prop
  | resolved {path : Path} {m : Module} (hfind : find? r.name = some path) (hload : load? path = some m) :
    Told find? read load? r (.verbose s!"Resolved reference '{r.displayName}' to '{path.text}'")
  | failed {path : Path} {fault : Fault} {log : Log} (hfind : find? r.name = some path)
      (hload : load? path = none) (hread : (read path).run log = (.error fault, log)) :
    Told find? read load? r
      (.warning s!"Failed to load reference '{r.name}' from '{path.text}': {fault.message}")

/-- What has been found once more references were tried. -/
def Discovery.after (find? : String → Option Path) (load? : Path → Option Module) (d : Discovery)
    (order : List Identity) : Discovery where
  tried := (order.map Identity.name).reverse ++ d.tried
  found := d.found ++ order.filterMap fun r => provided? find? load? r.name
  missing := d.missing ++ (order.map Identity.name).filter fun name => (find? name).isNone

/-- A name of the list that is tried is one less that has not been. -/
theorem length_filter_untried {names tried : List String} {name : String} (hname : name ∈ names)
    (hnew : name ∉ tried) :
    (names.filter fun x => x ∉ name :: tried).length < (names.filter fun x => x ∉ tried).length := by
  have hfilter : (names.filter fun x => x ∉ name :: tried) =
      (names.filter fun x => x ∉ tried).filter fun x => x ≠ name := by
    rw [List.filter_filter]
    apply List.filter_congr
    intro x _
    simp [not_or]
  rw [hfilter, List.length_filter_lt_length_iff_exists]
  exact ⟨name, by simp [hname, hnew], by simp⟩

/-- What has been found once one more reference was tried. -/
def Discovery.next (find? : String → Option Path) (load? : Path → Option Module) (d : Discovery)
    (r : Identity) : Discovery where
  tried := r.name :: d.tried
  found := d.found ++ (provided? find? load? r.name).toList
  missing := d.missing ++ if (find? r.name).isNone then [r.name] else []

theorem after_cons (d : Discovery) (r : Identity) (order : List Identity) :
    d.after find? load? (r :: order) = (d.next find? load? r).after find? load? order := by
  rw [Discovery.after, Discovery.after, Discovery.next, List.map_cons, List.reverse_cons, List.filterMap_cons,
    List.filter_cons]
  cases provided? find? load? r.name <;> cases find? r.name <;> simp

/-- One reference whose name was not tried yet. -/
theorem exists_run_follow_cons (hread : Steady read load?) (n : Nat) {r : Identity} (queue : List Identity)
    {d : Discovery} (hnew : r.name ∉ d.tried) (log : Log) :
    ∃ told, List.Forall₂ (Told find? read load?) ([r].filter fun r => (find? r.name).isSome) told ∧
      (follow find? read (n + 1) (r :: queue) d).run log =
        (follow find? read n (queue ++ behind find? load? r.name) (d.next find? load? r)).run (log ++ told) := by
  rw [follow, if_neg (mt List.contains_iff_mem.1 hnew), behind, Discovery.next]
  dsimp only
  cases hfind : find? r.name with
  | none =>
    have hprovided : provided? find? load? r.name = none := by rw [provided?, hfind]
    refine ⟨[], ?_, ?_⟩
    · rw [List.filter_cons_of_neg (by simp [hfind]), List.filter_nil]
      exact .nil
    · rw [hprovided]
      simp only [List.append_nil, Option.toList_none, Option.isNone_none, if_true]
  | some path =>
    obtain ⟨result, hresult, hload⟩ := hread path log
    have hprovided : provided? find? load? r.name = result.toOption.map fun m => ⟨path, m⟩ := by
      rw [provided?, hfind, hload]
    have hfound : ([r].filter fun r => (find? r.name).isSome) = [r] :=
      List.filter_cons_of_pos (by simp [hfind])
    rw [hprovided, hfound]
    dsimp only
    rw [StateT.run_bind, hresult]
    cases result with
    | ok m =>
      refine ⟨[_], .cons (.resolved hfind hload.symm) .nil, ?_⟩
      simp only [Except.toOption, Option.map_some, Option.toList_some, Option.isNone_some, Bool.false_eq_true,
        if_false, List.append_nil]
      rfl
    | error fault =>
      refine ⟨[_], .cons (.failed hfind hload.symm hresult) .nil, ?_⟩
      simp only [Except.toOption, Option.map_none, Option.toList_none, Option.isNone_some, Bool.false_eq_true,
        if_false, List.append_nil]
      rfl

/-- As long as the names are among those of a list and no module has more than `bound` references, following a
queue comes to its end: each step takes a reference off the queue, and only a name of the list that was not
tried yet puts others on it. -/
theorem exists_follow_run (hread : Steady read load?) {names : List String} {bound : Nat}
    (hclosed : ∀ name, (behind find? load? name).length ≤ bound ∧ ∀ r ∈ behind find? load? name, r.name ∈ names)
    {n : Nat} {queue : List Identity} {d : Discovery} (hqueue : ∀ r ∈ queue, r.name ∈ names)
    (hn : queue.length + (names.filter fun name => name ∉ d.tried).length * bound < n) (log : Log) :
    ∃ order notices, BreadthFirst (behind find? load?) d.tried queue order ∧
      List.Forall₂ (Told find? read load?) (order.filter fun r => (find? r.name).isSome) notices ∧
      (follow find? read n queue d).run log = (d.after find? load? order, log ++ notices) := by
  induction n generalizing queue d log with
  | zero => omega
  | succ n ih =>
    cases queue with
    | nil =>
      refine ⟨[], [], .nil, .nil, ?_⟩
      rw [Discovery.after, List.append_nil]
      simp only [List.filterMap_nil, List.map_nil, List.filter_nil, List.append_nil]
      rfl
    | cons r queue =>
      obtain ⟨hr, hqueue⟩ := List.forall_mem_cons.1 hqueue
      rw [List.length_cons] at hn
      by_cases htried : r.name ∈ d.tried
      · obtain ⟨order, notices, hbfs, htold, hrun⟩ := ih (d := d) hqueue (by omega) log
        refine ⟨order, notices, hbfs.skip htried, htold, ?_⟩
        rw [follow, if_pos (List.contains_iff_mem.2 htried)]
        exact hrun
      · obtain ⟨hbound, hbehind⟩ := hclosed r.name
        have hlength : (queue ++ behind find? load? r.name).length +
            (names.filter fun name => name ∉ r.name :: d.tried).length * bound < n := by
          have hfewer := Nat.mul_le_mul_right bound (length_filter_untried hr htried)
          rw [Nat.succ_mul] at hfewer
          rw [List.length_append]
          omega
        obtain ⟨told, hone, hstep⟩ := exists_run_follow_cons hread n queue htried log
        obtain ⟨order, notices, hbfs, hothers, hrun⟩ := ih (d := d.next find? load? r)
          (List.forall_mem_append.2 ⟨hqueue, hbehind⟩) hlength (log ++ told)
        refine ⟨r :: order, told ++ notices, hbfs.step htried, ?_, ?_⟩
        · rw [← List.singleton_append, List.filter_append]
          exact List.rel_append hone hothers
        · rw [hstep, hrun, after_cons, List.append_assoc]

end

end Loading

end ModuleLinker
