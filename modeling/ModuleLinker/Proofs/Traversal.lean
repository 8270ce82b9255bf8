import Mathlib.Data.List.Sort
import Mathlib.Data.String.Basic
import Mathlib.Logic.Relation
import ModuleLinker.Proofs.SymbolTable
import ModuleLinker.Traversal

namespace ModuleLinker

/-! # Traversals end in one table

Whatever the order in which the workers of a traversal take their steps, what they have done so far and
what they have still to do make up all their steps. So in the end the slots hold every declaration and
the indices hold every entry, and freezing them gives one table: that of the inputs gone through one
after another.
-/

/-! ## The order of places and entries -/

/-- Lists in one strict order that have the same elements are the same. -/
theorem eq_of_pairwise_of_mem_iff {r : α → α → Prop} (hasymm : ∀ a b, r a b → ¬ r b a) {xs ys : List α}
    (hxs : xs.Pairwise r) (hys : ys.Pairwise r) (h : ∀ a, a ∈ xs ↔ a ∈ ys) : xs = ys := by
  have : Std.Asymm r := ⟨hasymm⟩
  exact hxs.eq_of_mem_iff hys h

namespace Origin

theorem le_iff {a b : Origin} : a.le b = true ↔
    a.module < b.module ∨ (a.module = b.module ∧ a.index ≤ b.index) := decide_eq_true_iff

theorem before_of_le {a b : Origin} (h : a.le b = true) (hne : a ≠ b) : a.Before b := by
  rw [le_iff] at h
  unfold Before
  rcases h with hmodule | ⟨hmodule, hindex⟩
  · exact .inl hmodule
  · right
    refine ⟨hmodule, Nat.lt_of_le_of_ne hindex ?_⟩
    intro heq
    apply hne
    rcases a with ⟨i, j⟩
    rcases b with ⟨i', j'⟩
    dsimp only at hmodule heq
    rw [hmodule, heq]

theorem before_of_not_le {a b : Origin} (h : ¬ a.le b = true) : b.Before a := by
  rw [le_iff] at h
  unfold Before
  omega

theorem Before.trans {a b c : Origin} (hab : a.Before b) (hbc : b.Before c) : a.Before c := by
  unfold Before at *
  omega

/-- Sorting by places that are all different puts them in their strict order. -/
theorem pairwise_mergeSort {place : α → Origin} {xs : List α} (hnodup : (xs.map place).Nodup) :
    (xs.mergeSort fun a b => (place a).le (place b)).Pairwise
      fun a b => (place a).Before (place b) := by
  have hsorted : (xs.mergeSort fun a b => (place a).le (place b)).Pairwise
      fun a b => (place a).le (place b) = true := by
    apply List.pairwise_mergeSort
    · intro a b c hab hbc
      rw [le_iff] at *
      omega
    · intro a b
      rw [Bool.or_eq_true, le_iff, le_iff]
      omega
  have hperm := (List.mergeSort_perm xs fun a b => (place a).le (place b)).map place
  have hdistinct := List.pairwise_map.1 (hperm.nodup_iff.2 hnodup)
  exact hsorted.imp₂ (fun a b hle hne => before_of_le hle hne) hdistinct

end Origin

namespace Entry

/-- Whether an entry is before another one, in the order of names and, under one name, of places. -/
def Before (a b : Entry) : Prop := a.1 < b.1 ∨ (a.1 = b.1 ∧ a.2.Before b.2)

theorem Before.asymm {a b : Entry} (h : a.Before b) : ¬ b.Before a := by
  rintro (hname | ⟨hname, hplace⟩)
  · rcases h with hname' | ⟨hname', -⟩
    · exact lt_asymm hname hname'
    · exact absurd hname (hname' ▸ lt_irrefl _)
  · rcases h with hname' | ⟨-, hplace'⟩
    · exact absurd hname' (hname ▸ lt_irrefl _)
    · exact hplace.asymm hplace'

theorem Before.trans {a b c : Entry} (hab : a.Before b) (hbc : b.Before c) : a.Before c := by
  rcases hab with hab | ⟨hab, hab'⟩
  · rcases hbc with hbc | ⟨hbc, -⟩
    · exact .inl (lt_trans hab hbc)
    · exact .inl (hbc ▸ hab)
  · rcases hbc with hbc | ⟨hbc, hbc'⟩
    · exact .inl (hab ▸ hbc)
    · exact .inr ⟨hab.trans hbc, hab'.trans hbc'⟩

theorem before_of_le {a b : Entry} (h : a.le b = true) (hne : a ≠ b) : a.Before b := by
  rw [le, Bool.or_eq_true, Bool.and_eq_true, decide_eq_true_iff, decide_eq_true_iff] at h
  rcases h with hname | ⟨hname, hplace⟩
  · exact .inl hname
  · refine .inr ⟨hname, Origin.before_of_le hplace fun heq => hne (Prod.ext hname heq)⟩

theorem before_of_not_le {a b : Entry} (h : ¬ a.le b = true) : b.Before a := by
  rw [le, Bool.or_eq_true, Bool.and_eq_true, decide_eq_true_iff, decide_eq_true_iff, not_or] at h
  rcases lt_trichotomy a.1 b.1 with hname | hname | hname
  · exact absurd hname h.1
  · exact .inr ⟨hname.symm, Origin.before_of_not_le fun hplace => h.2 ⟨hname, hplace⟩⟩
  · exact .inl hname

/-! ## Indices -/

theorem mem_enter {e x : Entry} {entries : List Entry} : x ∈ enter e entries ↔ x = e ∨ x ∈ entries := by
  induction entries with
  | nil => simp [enter]
  | cons other rest ih =>
    rw [enter]
    by_cases hsame : e = other
    · rw [if_pos hsame, hsame, List.mem_cons]
      tauto
    · rw [if_neg hsame]
      by_cases hle : e.le other = true
      · rw [if_pos hle, List.mem_cons]
      · rw [if_neg hle, List.mem_cons, List.mem_cons, ih]
        tauto

/-- An index stays in its order. -/
theorem pairwise_enter {e : Entry} {entries : List Entry} (h : entries.Pairwise Before) :
    (enter e entries).Pairwise Before := by
  induction entries with
  | nil => exact List.pairwise_singleton _ _
  | cons other rest ih =>
    obtain ⟨hother, hrest⟩ := List.pairwise_cons.1 h
    rw [enter]
    by_cases hsame : e = other
    · rwa [if_pos hsame]
    · rw [if_neg hsame]
      by_cases hle : e.le other = true
      · rw [if_pos hle]
        have hbefore := before_of_le hle hsame
        refine List.pairwise_cons.2 ⟨?_, h⟩
        intro x hx
        rcases List.mem_cons.1 hx with rfl | hx
        · exact hbefore
        · exact hbefore.trans (hother x hx)
      · rw [if_neg hle]
        refine List.pairwise_cons.2 ⟨?_, ih hrest⟩
        intro x hx
        rcases mem_enter.1 hx with rfl | hx
        · exact before_of_not_le hle
        · exact hother x hx

/-- The index of entries. -/
def index (entries : List Entry) : List Entry := entries.foldl (fun index e => enter e index) []

theorem index_append_singleton (entries : List Entry) (e : Entry) :
    index (entries ++ [e]) = enter e (index entries) := by
  rw [index, List.foldl_append]
  rfl

theorem mem_index {x : Entry} {entries : List Entry} : x ∈ index entries ↔ x ∈ entries := by
  induction entries using List.reverseRecOn with
  | nil => exact Iff.rfl
  | append_singleton entries e ih =>
    rw [index_append_singleton, mem_enter, ih, List.mem_append, List.mem_singleton, or_comm]

theorem pairwise_index (entries : List Entry) : (index entries).Pairwise Before := by
  induction entries using List.reverseRecOn with
  | nil => exact List.Pairwise.nil
  | append_singleton entries e ih =>
    rw [index_append_singleton]
    exact pairwise_enter ih

/-- The order in which entries are made does not matter. -/
theorem index_congr {entries entries' : List Entry} (h : entries.Perm entries') :
    index entries = index entries' := by
  refine eq_of_pairwise_of_mem_iff (fun _ _ => Before.asymm) (pairwise_index _) (pairwise_index _) ?_
  intro x
  rw [mem_index, mem_index, h.mem_iff]

end Entry

namespace Traversal

/-! ## What has been done -/

namespace Event

/-- The declaration whose claim the step is, if it is one. -/
def claimed? : Event → Option Declaration
  | claimSlot d => some d
  | _ => none

/-- The resource that the step enters, if it does. -/
def resource? : Event → Option Entry
  | enterResource e => some e
  | _ => none

/-- The attribute that the step enters, if it does. -/
def attribute? : Event → Option Entry
  | enterAttribute e => some e
  | _ => none

end Event

/-- The steps `done` have led to the state, and with those that are left they make up all steps of the
traversal. -/
structure History (set : ModuleSet) (done : List Event) (s : State) : Prop where
  slots : s.slots = Symbol.ofDeclarations (done.filterMap Event.claimed?)
  resources : s.resources = Entry.index (done.filterMap Event.resource?)
  attributes : s.attributes = Entry.index (done.filterMap Event.attribute?)
  perm : (done ++ s.pending.flatten).Perm (State.start set).pending.flatten

theorem History.start (set : ModuleSet) : History set [] (.start set) :=
  ⟨rfl, rfl, rfl, List.Perm.refl _⟩

/-- The steps that are left before a step are that step and those that are left after it. -/
theorem flatten_set_perm {pending : List (List Event)} {worker : Nat} {e : Event} {rest : List Event}
    (h : pending[worker]? = some (e :: rest)) :
    (e :: (pending.set worker rest).flatten).Perm pending.flatten := by
  induction pending generalizing worker with
  | nil => exact nomatch h
  | cons events pending ih =>
    cases worker with
    | zero =>
      obtain rfl : events = e :: rest := Option.some.inj h
      exact List.Perm.refl _
    | succ worker =>
      rw [List.set_cons_succ, List.flatten_cons, List.flatten_cons]
      have hlater : (e :: (pending.set worker rest).flatten).Perm pending.flatten := ih h
      exact List.perm_middle.symm.trans (hlater.append_left events)

theorem History.step {set : ModuleSet} {done : List Event} {s t : State} (h : History set done s)
    (hstep : Step s t) : ∃ e, History set (done ++ [e]) t := by
  obtain ⟨hslots, hresources, hattributes, hperm⟩ := h
  cases hstep with
  | @take worker e rest hnext =>
    refine ⟨e, ?_⟩
    have hleft : (done ++ [e] ++ (s.pending.set worker rest).flatten).Perm
        (State.start set).pending.flatten := by
      rw [List.append_assoc, List.singleton_append]
      exact ((flatten_set_perm hnext).append_left done).trans hperm
    cases e with
    | claimSlot d =>
      refine ⟨?_, ?_, ?_, hleft⟩
      · rw [List.filterMap_append, Symbol.ofDeclarations, List.foldl_append]
        exact congrArg (Symbol.claim d) hslots
      · rw [List.filterMap_append]
        exact hresources.trans (congrArg Entry.index (List.append_nil _).symm)
      · rw [List.filterMap_append]
        exact hattributes.trans (congrArg Entry.index (List.append_nil _).symm)
    | enterResource x =>
      refine ⟨?_, ?_, ?_, hleft⟩
      · rw [List.filterMap_append]
        exact hslots.trans (congrArg Symbol.ofDeclarations (List.append_nil _).symm)
      · rw [List.filterMap_append]
        exact (congrArg (Entry.enter x) hresources).trans (Entry.index_append_singleton _ x).symm
      · rw [List.filterMap_append]
        exact hattributes.trans (congrArg Entry.index (List.append_nil _).symm)
    | enterAttribute x =>
      refine ⟨?_, ?_, ?_, hleft⟩
      · rw [List.filterMap_append]
        exact hslots.trans (congrArg Symbol.ofDeclarations (List.append_nil _).symm)
      · rw [List.filterMap_append]
        exact hresources.trans (congrArg Entry.index (List.append_nil _).symm)
      · rw [List.filterMap_append]
        exact (congrArg (Entry.enter x) hattributes).trans (Entry.index_append_singleton _ x).symm

/-- A traversal that is under way or finished has a history. -/
theorem exists_history {set : ModuleSet} {s : State}
    (hrun : Relation.ReflTransGen Step (.start set) s) : ∃ done, History set done s := by
  induction hrun with
  | refl => exact ⟨[], .start set⟩
  | tail _ hstep ih =>
    obtain ⟨done, h⟩ := ih
    obtain ⟨e, h'⟩ := h.step hstep
    exact ⟨done ++ [e], h'⟩

/-! ## Progress -/

theorem exists_step {s : State} (h : ¬ s.Done) :
    ∃ t, Step s t ∧ t.pending.flatten.length < s.pending.flatten.length := by
  unfold State.Done at h
  push Not at h
  obtain ⟨events, hmem, hne⟩ := h
  obtain ⟨e, rest, rfl⟩ := List.exists_cons_of_ne_nil hne
  obtain ⟨worker, hnext⟩ := List.mem_iff_getElem?.1 hmem
  refine ⟨_, .take hnext, ?_⟩
  have hlength := (flatten_set_perm hnext).length_eq
  rw [List.length_cons] at hlength
  have hpending : ({ s with pending := s.pending.set worker rest }.perform e).pending =
      s.pending.set worker rest := by
    cases e <;> rfl
  rw [hpending]
  omega

/-- The workers can always go on until nothing is left to do. -/
theorem exists_done (s : State) : ∃ t, Relation.ReflTransGen Step s t ∧ t.Done := by
  induction hn : s.pending.flatten.length using Nat.strong_induction_on generalizing s with
  | _ n ih =>
    by_cases hdone : s.Done
    · exact ⟨s, .refl, hdone⟩
    · obtain ⟨t, hstep, hlt⟩ := exists_step hdone
      obtain ⟨u, hrun, hu⟩ := ih t.pending.flatten.length (hn ▸ hlt) t rfl
      exact ⟨u, .head hstep hrun, hu⟩

/-- Whatever the turns of the workers, the steps they take are steps of a traversal. -/
theorem run_steps (s : State) (schedule : List Nat) :
    Relation.ReflTransGen Step s (s.run schedule) := by
  induction schedule generalizing s with
  | nil => exact .refl
  | cons worker schedule ih =>
    rw [State.run]
    split
    case h_1 e rest hnext => exact .head (.take hnext) (ih _)
    case h_2 => exact ih s

/-! ## All steps -/

theorem filterMap_start {f : Event → Option α} (set : ModuleSet) :
    (State.start set).pending.flatten.filterMap f =
      set.inputs.zipIdx.flatMap fun (m, i) => (events m i).filterMap f := by
  rw [State.start, List.filterMap_flatten, List.map_map]
  rfl

theorem claimed_start (set : ModuleSet) :
    (State.start set).pending.flatten.filterMap Event.claimed? = set.declarations := by
  rw [filterMap_start, ModuleSet.declarations]
  refine List.flatMap_congr ?_
  rintro ⟨m, i⟩ -
  simp [events, Event.claimed?, List.filterMap_map, Function.comp_def]

theorem resources_start (set : ModuleSet) :
    (State.start set).pending.flatten.filterMap Event.resource? =
      SymbolTable.entries set fun m => m.resources.map Resource.name := by
  rw [filterMap_start, SymbolTable.entries]
  refine List.flatMap_congr ?_
  rintro ⟨m, i⟩ -
  simp [events, Event.resource?, List.filterMap_map, Function.comp_def, List.zipIdx_map]

theorem attributes_start (set : ModuleSet) :
    (State.start set).pending.flatten.filterMap Event.attribute? =
      SymbolTable.entries set fun m => m.attributes.map fun a => m.typeNameOrToken a.type := by
  rw [filterMap_start, SymbolTable.entries]
  refine List.flatMap_congr ?_
  rintro ⟨m, i⟩ -
  simp [events, Event.attribute?, List.filterMap_map, Function.comp_def, List.zipIdx_map]

/-! ## Sorting the claims -/

theorem contributors_sortContributors (s : Symbol) : (sortContributors s).contributors =
    s.contributors.mergeSort fun a b => a.origin.le b.origin := by
  rw [sortContributors]
  split
  case h_1 hnil =>
    have hperm := List.mergeSort_perm s.contributors fun a b => a.origin.le b.origin
    rw [hnil] at hperm
    exact absurd hperm.nil_eq (List.cons_ne_nil _ _).symm
  case h_2 first others hcons => exact hcons.symm

theorem name_sortContributors (s : Symbol) : (sortContributors s).name = s.name := by
  rw [sortContributors]
  split <;> rfl

/-- Symbols with one name and the same contributors are the same. -/
theorem symbol_ext {s t : Symbol} (hname : s.name = t.name) (h : s.contributors = t.contributors) :
    s = t := by
  obtain ⟨name, first, others⟩ := s
  obtain ⟨name', first', others'⟩ := t
  obtain rfl : name = name' := hname
  obtain ⟨rfl, rfl⟩ := List.cons.inj h
  rfl

section

variable {set : ModuleSet} {ds : List Declaration} {slots : List Symbol}

/-- However the declarations are ordered that claim a slot, in the end they stand in the order of their
places. -/
theorem mergeSort_filter (hds : ds.Perm set.declarations) (p : Declaration → Bool) :
    ((ds.filter p).mergeSort fun a b => a.origin.le b.origin) = set.declarations.filter p := by
  have hnodup : ((ds.filter p).map Declaration.origin).Nodup :=
    ((hds.map Declaration.origin).nodup_iff.2 set.nodup_origins).sublist
      (List.filter_sublist.map Declaration.origin)
  refine eq_of_pairwise_of_mem_iff (fun _ _ => Origin.Before.asymm) (Origin.pairwise_mergeSort hnodup)
    (set.pairwise_before.sublist List.filter_sublist) ?_
  intro d
  rw [List.mem_mergeSort, (hds.filter p).mem_iff]

/-- A slot is that of a symbol of the inputs once its claims are sorted. -/
theorem sortContributors_eq_iff (hgroups : Symbol.Groups slots ds) (hds : ds.Perm set.declarations)
    {s t : Symbol} (hs : s ∈ slots) (ht : t ∈ (SymbolTable.ofSet set).symbols) :
    sortContributors s = t ↔ s.name = t.name := by
  constructor
  · rintro rfl
    exact (name_sortContributors s).symm
  · intro hname
    apply symbol_ext
    · rw [name_sortContributors, hname]
    · rw [contributors_sortContributors, hgroups.contributors s hs, mergeSort_filter hds,
        set.groups.contributors t ht, hname]

theorem mem_map_sortContributors (hgroups : Symbol.Groups slots ds) (hds : ds.Perm set.declarations)
    {t : Symbol} : t ∈ slots.map sortContributors ↔ t ∈ (SymbolTable.ofSet set).symbols := by
  rw [List.mem_map]
  constructor
  · rintro ⟨s, hs, rfl⟩
    have hfirst : s.first ∈ ds.filter (·.name == s.name) :=
      hgroups.contributors s hs ▸ List.mem_cons_self
    obtain ⟨hmem, -⟩ := List.mem_filter.1 hfirst
    obtain ⟨t, ht, hname, -⟩ := set.groups.exists_symbol (hds.mem_iff.1 hmem)
    have hsame : s.name = t.name := (hgroups.name_eq hs List.mem_cons_self).symm.trans hname.symm
    rwa [(sortContributors_eq_iff hgroups hds hs ht).2 hsame]
  · intro ht
    have hfirst : t.first ∈ set.declarations.filter (·.name == t.name) :=
      set.groups.contributors t ht ▸ List.mem_cons_self
    obtain ⟨hmem, -⟩ := List.mem_filter.1 hfirst
    obtain ⟨s, hs, hname, -⟩ := hgroups.exists_symbol (hds.mem_iff.2 hmem)
    have hsame : s.name = t.name := hname.trans (set.groups.name_eq ht List.mem_cons_self)
    exact ⟨s, hs, (sortContributors_eq_iff hgroups hds hs ht).2 hsame⟩

/-- The symbols of a set stand in the order of their first types. -/
theorem pairwise_first (set : ModuleSet) : (SymbolTable.ofSet set).symbols.Pairwise
    fun s t => s.first.origin.Before t.first.origin := by
  have hfirsts : ((SymbolTable.ofSet set).symbols.map Symbol.first).Pairwise
      fun d e => d.origin.Before e.origin := by
    rw [set.groups.firsts]
    exact set.pairwise_before.sublist (firsts_sublist _ _ _)
  exact List.Pairwise.of_map Symbol.first (fun _ _ => id) hfirsts

/-- Slots in any order that hold the claims of all declarations in any order are frozen into the symbols
of the set. -/
theorem symbols_freeze (hgroups : Symbol.Groups slots ds) (hds : ds.Perm set.declarations)
    {slots' : List Symbol} (hslots : slots'.Perm slots) (resources attributes : List Entry) :
    (freeze slots' resources attributes).symbols = (SymbolTable.ofSet set).symbols := by
  have hmem : ∀ t, t ∈ slots'.map sortContributors ↔ t ∈ (SymbolTable.ofSet set).symbols := by
    intro t
    rw [(hslots.map sortContributors).mem_iff, mem_map_sortContributors hgroups hds]
  have hnames : ((slots'.map sortContributors).map Symbol.name).Nodup := by
    have hsame : (slots'.map sortContributors).map Symbol.name = slots'.map Symbol.name := by
      rw [List.map_map]
      exact List.map_congr_left fun s _ => name_sortContributors s
    rw [hsame]
    exact (hslots.map Symbol.name).nodup_iff.2 hgroups.nodup_names
  have hplaces : ((slots'.map sortContributors).map fun s => s.first.origin).Nodup := by
    refine List.pairwise_map.2 ((List.pairwise_map.1 hnames).imp_of_mem ?_)
    intro s t hs ht hne hplace
    have hdistinct : ((SymbolTable.ofSet set).symbols.map fun s => s.first.origin).Nodup :=
      List.pairwise_map.2 ((pairwise_first set).imp fun h => h.ne)
    have heq : s = t := List.inj_on_of_nodup_map hdistinct ((hmem s).1 hs) ((hmem t).1 ht) hplace
    exact hne (congrArg Symbol.name heq)
  refine eq_of_pairwise_of_mem_iff (fun _ _ => Origin.Before.asymm) (Origin.pairwise_mergeSort hplaces)
    (pairwise_first set) ?_
  intro t
  exact List.mem_mergeSort.trans (hmem t)

end

end Traversal

/-! ## Looking names and places up -/

namespace SymbolTable

/-- The entries of a set stand in the order of their places. -/
theorem pairwise_entries (set : ModuleSet) (names : Module → List String) :
    (entries set names).Pairwise fun a b => a.2.Before b.2 := by
  rw [entries, List.pairwise_flatMap]
  constructor
  · rintro ⟨m, i⟩ -
    refine List.pairwise_map.2 ((ModuleSet.pairwise_zipIdx (names m)).imp ?_)
    intro a b hlt
    exact .inr ⟨rfl, hlt⟩
  · refine (ModuleSet.pairwise_zipIdx set.inputs).imp ?_
    rintro ⟨m, i⟩ ⟨m', i'⟩ hlt a ha b hb
    obtain ⟨_, _, rfl⟩ := List.mem_map.1 ha
    obtain ⟨_, _, rfl⟩ := List.mem_map.1 hb
    exact .inl hlt

theorem mem_entries {set : ModuleSet} {names : Module → List String} {name : String} {o : Origin} :
    (name, o) ∈ entries set names ↔
      ∃ m, set.inputs[o.module]? = some m ∧ (names m)[o.index]? = some name := by
  rw [entries, List.mem_flatMap]
  constructor
  · rintro ⟨⟨m, i⟩, hm, he⟩
    obtain ⟨⟨name', j⟩, hname, heq⟩ := List.mem_map.1 he
    obtain ⟨rfl, rfl⟩ := Prod.mk.inj heq
    exact ⟨m, List.mk_mem_zipIdx_iff_getElem?.1 hm, List.mk_mem_zipIdx_iff_getElem?.1 hname⟩
  · rintro ⟨m, hm, hname⟩
    exact ⟨(m, o.module), List.mk_mem_zipIdx_iff_getElem?.2 hm,
      List.mem_map.2 ⟨(name, o.index), List.mk_mem_zipIdx_iff_getElem?.2 hname, rfl⟩⟩

theorem mem_originsOf {es : List Entry} {name : String} {o : Origin} :
    o ∈ originsOf es name ↔ (name, o) ∈ es := by
  rw [originsOf, List.mem_map]
  constructor
  · rintro ⟨⟨name', o'⟩, he, rfl⟩
    obtain ⟨hmem, hname⟩ := List.mem_filter.1 he
    exact beq_iff_eq.1 hname ▸ hmem
  · intro he
    exact ⟨(name, o), List.mem_filter.2 ⟨he, beq_self_eq_true name⟩, rfl⟩

/-- The places of a name stand in their order if the index is in the order of names and places. -/
theorem pairwise_originsOf {es : List Entry} (h : es.Pairwise Entry.Before) (name : String) :
    (originsOf es name).Pairwise Origin.Before := by
  refine List.pairwise_map.2 ((h.sublist List.filter_sublist).imp_of_mem ?_)
  intro a b ha hb hbefore
  have hname : a.1 = b.1 :=
    (beq_iff_eq.1 (List.mem_filter.1 ha).2).trans (beq_iff_eq.1 (List.mem_filter.1 hb).2).symm
  rcases hbefore with hlt | ⟨-, hplace⟩
  · exact absurd hlt (hname ▸ lt_irrefl _)
  · exact hplace

/-- An index by names gives the places of a name as the entries in the order of the inputs do. -/
theorem originsOf_index (set : ModuleSet) (names : Module → List String) (name : String) :
    originsOf (Entry.index (entries set names)) name = originsOf (entries set names) name := by
  have hordered : (originsOf (entries set names) name).Pairwise Origin.Before :=
    List.pairwise_map.2 ((pairwise_entries set names).sublist List.filter_sublist)
  refine eq_of_pairwise_of_mem_iff (fun _ _ => Origin.Before.asymm)
    (pairwise_originsOf (Entry.pairwise_index _) name) hordered ?_
  intro o
  rw [mem_originsOf, mem_originsOf, Entry.mem_index]

/-- The places are those that have a property, in their order. -/
structure Lists (places : List Origin) (p : Origin → Prop) : Prop where
  increasing : places.Pairwise Origin.Before
  mem_iff : ∀ o, o ∈ places ↔ p o

/-- What the table of a set of modules tells of it. -/
structure Indexes (t : SymbolTable) (set : ModuleSet) : Prop where
  /-- No two symbols have one name. -/
  nodup_names : (t.symbols.map Symbol.name).Nodup
  /-- The contributors of the symbols are the top-level types of the inputs, each of them once. -/
  partition : (t.symbols.flatMap Symbol.contributors).Perm set.declarations
  /-- A type contributes to the symbol of its qualified name. -/
  named : ∀ s ∈ t.symbols, ∀ d ∈ s.contributors, d.name = s.name
  /-- Contributors stand in the order of modules and declarations. -/
  increasing : ∀ s ∈ t.symbols, s.contributors.Pairwise fun d e => d.origin.Before e.origin
  /-- Symbols stand in the order of their first contributors. -/
  ordered : t.symbols.Pairwise fun s s' => s.first.origin.Before s'.first.origin
  find : ∀ name s, t.find? name = some s ↔ s ∈ t.symbols ∧ s.name = name
  symbolOf : ∀ o s, t.symbolOf? o = some s ↔
    s ∈ t.symbols ∧ ∃ d ∈ s.contributors, d.origin = o
  resources : ∀ name, Lists (t.resourceOrigins name) fun o =>
    ∃ m, set.inputs[o.module]? = some m ∧ ∃ r, m.resources[o.index]? = some r ∧ r.name = name
  attributes : ∀ name, Lists (t.attributeOrigins name) fun o =>
    ∃ m, set.inputs[o.module]? = some m ∧
      ∃ a, m.attributes[o.index]? = some a ∧ m.typeNameOrToken a.type = name

/-- What is found in a list is the only element that is looked for, where there is one at most. -/
theorem find?_eq_some_iff {symbols : List Symbol} {p : Symbol → Bool}
    (h : ∀ s ∈ symbols, ∀ s' ∈ symbols, p s = true → p s' = true → s = s') {s : Symbol} :
    symbols.find? p = some s ↔ s ∈ symbols ∧ p s = true := by
  constructor
  · intro hfind
    exact ⟨List.mem_of_find?_eq_some hfind, List.find?_some hfind⟩
  · rintro ⟨hmem, hs⟩
    have hfound : (symbols.find? p).isSome := List.find?_isSome.2 ⟨s, hmem, hs⟩
    obtain ⟨s', hfind⟩ := Option.isSome_iff_exists.1 hfound
    rw [hfind, h s' (List.mem_of_find?_eq_some hfind) s hmem (List.find?_some hfind) hs]

/-! ### Numbers of symbols -/

section

variable {κ : Type} {t : SymbolTable} {keys : Symbol → List κ} {key : κ} {number : UInt32}

theorem mem_numbered : (key, number) ∈ t.numbered keys ↔
    ∃ s i, t.symbols[i]? = some s ∧ key ∈ keys s ∧ .ofNat i = number := by
  rw [numbered, List.mem_flatMap]
  constructor
  · rintro ⟨⟨s, i⟩, hs, hentry⟩
    obtain ⟨key', hkey, heq⟩ := List.mem_map.1 hentry
    obtain ⟨rfl, rfl⟩ := Prod.mk.inj heq
    exact ⟨s, i, List.mk_mem_zipIdx_iff_getElem?.1 hs, hkey, rfl⟩
  · rintro ⟨s, i, hs, hkey, rfl⟩
    exact ⟨(s, i), List.mk_mem_zipIdx_iff_getElem?.2 hs, List.mem_map.2 ⟨key, hkey, rfl⟩⟩

theorem map_fst_numbered : (t.numbered keys).map Prod.fst = t.symbols.flatMap keys := by
  have hsymbols : t.symbols.flatMap keys = t.symbols.zipIdx.flatMap fun entry => keys entry.1 := by
    conv_lhs => rw [← List.zipIdx_map_fst 0 t.symbols, List.flatMap_map]
  rw [hsymbols, numbered, List.map_flatMap]
  refine List.flatMap_congr fun entry _ => ?_
  rw [List.map_map]
  exact List.map_id' _

variable [BEq κ] [LawfulBEq κ] [Hashable κ] [LawfulHashable κ]

/-- Where no two symbols have a key in common, the number of a symbol is found under each of its keys. -/
theorem getElem?_numbered (hnodup : (t.symbols.flatMap keys).Nodup) :
    (Std.HashMap.ofList (t.numbered keys))[key]? = some number ↔ (key, number) ∈ t.numbered keys := by
  have hdistinct : (t.numbered keys).Pairwise fun a b => (a.1 == b.1) = false := by
    rw [← map_fst_numbered] at hnodup
    exact (List.pairwise_map.1 hnodup).imp fun hne => beq_false_of_ne hne
  constructor
  · intro h
    by_cases hkey : key ∈ (t.numbered keys).map Prod.fst
    · obtain ⟨⟨_, number'⟩, hmem, rfl⟩ := List.mem_map.1 hkey
      rw [Std.HashMap.getElem?_ofList_of_mem (beq_self_eq_true _) hdistinct hmem] at h
      exact Option.some.inj h ▸ hmem
    · rw [Std.HashMap.getElem?_ofList_of_contains_eq_false (by simpa using hkey)] at h
      exact nomatch h
  · exact Std.HashMap.getElem?_ofList_of_mem (beq_self_eq_true _) hdistinct

/-- The symbol that is found by its number is the one that has the key, while 32 bits tell all symbols apart. -/
theorem get?_numbered (hnodup : (t.symbols.flatMap keys).Nodup) (hroom : t.symbols.length ≤ 2 ^ 32) {s : Symbol} :
    ((Std.HashMap.ofList (t.numbered keys))[key]?).bind t.get? = some s ↔ s ∈ t.symbols ∧ key ∈ keys s := by
  have hsize : UInt32.size = 2 ^ 32 := rfl
  have hget {s : Symbol} {i : Nat} (hs : t.symbols[i]? = some s) : t.get? (.ofNat i) = some s := by
    have hi := (List.getElem?_eq_some_iff.1 hs).1
    rw [get?, UInt32.toNat_ofNat_of_lt' (by omega), hs]
  rw [Option.bind_eq_some_iff]
  constructor
  · rintro ⟨number, hnumber, hs⟩
    obtain ⟨s', i, hs', hkey, rfl⟩ := mem_numbered.1 ((getElem?_numbered hnodup).1 hnumber)
    obtain rfl := Option.some.inj ((hget hs').symm.trans hs)
    exact ⟨List.mem_of_getElem? hs', hkey⟩
  · rintro ⟨hs, hkey⟩
    obtain ⟨i, hs⟩ := List.mem_iff_getElem?.1 hs
    exact ⟨.ofNat i, (getElem?_numbered hnodup).2 (mem_numbered.2 ⟨s, i, hs, hkey, rfl⟩), hget hs⟩

end

namespace Indexes

variable {t : SymbolTable} {set : ModuleSet}

/-- A symbol is found by the number under its name as it is found by a search for the name. -/
theorem get?_byName (h : t.Indexes set) (hroom : t.symbols.length ≤ 2 ^ 32) (name : String) :
    (t.byName[name]?).bind t.get? = t.find? name := by
  have hnodup : (t.symbols.flatMap fun s => [s.name]).Nodup := by
    rw [← List.map_eq_flatMap]
    exact h.nodup_names
  refine Option.ext fun s => (get?_numbered hnodup hroom).trans ?_
  rw [h.find, List.mem_singleton]
  exact and_congr_right fun _ => eq_comm

/-- A symbol is found by the number under the place of one of its types as it is found by a search. -/
theorem get?_byOrigin (h : t.Indexes set) (hroom : t.symbols.length ≤ 2 ^ 32) (origin : Origin) :
    (t.byOrigin[origin]?).bind t.get? = t.symbolOf? origin := by
  have hnodup : (t.symbols.flatMap fun s => s.contributors.map Declaration.origin).Nodup := by
    rw [← List.map_flatMap]
    exact (h.partition.map Declaration.origin).nodup_iff.2 set.nodup_origins
  refine Option.ext fun s => (get?_numbered hnodup hroom).trans ?_
  rw [h.symbolOf, List.mem_map]

end Indexes

/-! ### Tables of sets -/

theorem lists_originsOf (set : ModuleSet) (names : Module → List String) (name : String) :
    Lists (originsOf (Entry.index (entries set names)) name) fun o =>
      ∃ m, set.inputs[o.module]? = some m ∧ (names m)[o.index]? = some name := by
  refine ⟨pairwise_originsOf (Entry.pairwise_index _) name, ?_⟩
  intro o
  rw [mem_originsOf, Entry.mem_index, mem_entries]

/-- The table of a set, with its indices in the order of names. -/
def indexed (t : SymbolTable) : SymbolTable :=
  { t with resources := Entry.index t.resources, attributes := Entry.index t.attributes }

theorem resourceOrigins_indexed (set : ModuleSet) (name : String) :
    (ofSet set).indexed.resourceOrigins name = (ofSet set).resourceOrigins name := by
  rw [resourceOrigins, resourceOrigins, indexed, ofSet, originsOf_index]

theorem attributeOrigins_indexed (set : ModuleSet) (name : String) :
    (ofSet set).indexed.attributeOrigins name = (ofSet set).attributeOrigins name := by
  rw [attributeOrigins, attributeOrigins, indexed, ofSet, originsOf_index]

/-- A type contributes to no more than one symbol. -/
theorem symbol_eq_of_origin_eq {set : ModuleSet} {s s' : Symbol} (hs : s ∈ (ofSet set).symbols)
    (hs' : s' ∈ (ofSet set).symbols) {d d' : Declaration} (hd : d ∈ s.contributors)
    (hd' : d' ∈ s'.contributors) (horigin : d.origin = d'.origin) : s = s' := by
  have hmem := set.groups.contributors s hs ▸ hd
  have hmem' := set.groups.contributors s' hs' ▸ hd'
  have heq : d = d' :=
    ModuleSet.eq_of_origin_eq (List.mem_of_mem_filter hmem) (List.mem_of_mem_filter hmem') horigin
  have hname := set.groups.name_eq hs hd
  rw [heq, set.groups.name_eq hs' hd'] at hname
  exact set.groups.eq_of_name_eq hs hs' hname.symm

theorem indexes_indexed (set : ModuleSet) : (ofSet set).indexed.Indexes set := by
  have hgroups := set.groups
  constructor
  case nodup_names => exact hgroups.nodup_names
  case partition => exact Symbol.ofDeclarations_perm set.declarations
  case named => exact fun s hs d hd => hgroups.name_eq hs hd
  case increasing =>
    intro s hs
    rw [hgroups.contributors s hs]
    exact set.pairwise_before.sublist List.filter_sublist
  case ordered => exact Traversal.pairwise_first set
  case find =>
    intro name s
    have hone : ∀ s ∈ (ofSet set).symbols, ∀ s' ∈ (ofSet set).symbols,
        (s.name == name) = true → (s'.name == name) = true → s = s' := by
      intro s hs s' hs' h h'
      exact hgroups.eq_of_name_eq hs hs' ((beq_iff_eq.1 h).trans (beq_iff_eq.1 h').symm)
    exact (find?_eq_some_iff hone).trans (and_congr_right fun _ => beq_iff_eq)
  case symbolOf =>
    intro o s
    have hany : ∀ s : Symbol, (s.contributors.any (·.origin == o)) = true ↔
        ∃ d ∈ s.contributors, d.origin = o := by
      intro s
      simp only [List.any_eq_true, beq_iff_eq]
    have hone : ∀ s ∈ (ofSet set).symbols, ∀ s' ∈ (ofSet set).symbols,
        (s.contributors.any (·.origin == o)) = true →
          (s'.contributors.any (·.origin == o)) = true → s = s' := by
      intro s hs s' hs' h h'
      obtain ⟨d, hd, horigin⟩ := (hany s).1 h
      obtain ⟨d', hd', horigin'⟩ := (hany s').1 h'
      exact symbol_eq_of_origin_eq hs hs' hd hd' (horigin.trans horigin'.symm)
    exact (find?_eq_some_iff hone).trans (and_congr_right fun _ => hany s)
  case resources =>
    intro name
    obtain ⟨hordered, hmem⟩ := lists_originsOf set (fun m => m.resources.map Resource.name) name
    refine ⟨hordered, fun o => (hmem o).trans ?_⟩
    simp only [List.getElem?_map, Option.map_eq_some_iff]
  case attributes =>
    intro name
    obtain ⟨hordered, hmem⟩ :=
      lists_originsOf set (fun m => m.attributes.map fun a => m.typeNameOrToken a.type) name
    refine ⟨hordered, fun o => (hmem o).trans ?_⟩
    simp only [List.getElem?_map, Option.map_eq_some_iff]

end SymbolTable

namespace Traversal

/-- A finished traversal is frozen into the table of the set, whatever order its slots are listed in. -/
theorem freeze_eq_indexed {set : ModuleSet} {s : State}
    (hrun : Relation.ReflTransGen Step (.start set) s) (hdone : s.Done) {slots : List Symbol}
    (hslots : slots.Perm s.slots) :
    freeze slots s.resources s.attributes = (SymbolTable.ofSet set).indexed := by
  obtain ⟨done, hhistory⟩ := exists_history hrun
  -- nothing is left, so all steps have been taken
  have hperm : done.Perm (State.start set).pending.flatten := by
    have hall := hhistory.perm
    rwa [List.flatten_eq_nil_iff.2 hdone, List.append_nil] at hall
  have hclaims : (done.filterMap Event.claimed?).Perm set.declarations := by
    rw [← claimed_start]
    exact hperm.filterMap _
  have hgroups : Symbol.Groups s.slots (done.filterMap Event.claimed?) := by
    rw [hhistory.slots]
    exact Symbol.ofDeclarations_groups _
  have hsymbols := symbols_freeze hgroups hclaims hslots s.resources s.attributes
  have hresources : s.resources = Entry.index (SymbolTable.ofSet set).resources := by
    rw [hhistory.resources, Entry.index_congr (hperm.filterMap Event.resource?), resources_start]
    rfl
  have hattributes : s.attributes = Entry.index (SymbolTable.ofSet set).attributes := by
    rw [hhistory.attributes, Entry.index_congr (hperm.filterMap Event.attribute?), attributes_start]
    rfl
  rw [SymbolTable.indexed, ← hresources, ← hattributes, ← hsymbols]
  rfl

/-- A traversal can be finished whatever has been done of it, and whatever order its steps are taken in,
in the end it is frozen into the same table: that of the inputs one after another, which lists every
type, resource and attribute of theirs in its order. -/
theorem freeze_of_done (set : ModuleSet) {s : State}
    (hrun : Relation.ReflTransGen Step (.start set) s) :
    (∃ t, Relation.ReflTransGen Step s t ∧ t.Done) ∧
      (s.Done → ∀ slots, slots.Perm s.slots →
        freeze slots s.resources s.attributes = (SymbolTable.ofSet set).indexed ∧
        (freeze slots s.resources s.attributes).Indexes set ∧
        ∀ name,
          (freeze slots s.resources s.attributes).resourceOrigins name =
            (SymbolTable.ofSet set).resourceOrigins name ∧
          (freeze slots s.resources s.attributes).attributeOrigins name =
            (SymbolTable.ofSet set).attributeOrigins name) := by
  refine ⟨exists_done s, ?_⟩
  intro hdone slots hslots
  rw [freeze_eq_indexed hrun hdone hslots]
  refine ⟨rfl, SymbolTable.indexes_indexed set, ?_⟩
  intro name
  exact ⟨SymbolTable.resourceOrigins_indexed set name, SymbolTable.attributeOrigins_indexed set name⟩

/-- Two modules with a class `N.Box` and a resource each. -/
def twins : ModuleSet :=
  let box : TypeDef := ⟨⟨0x02000001⟩, "N", "Box", ⟨0x1⟩, none, [], [], [], [], [], [], [], []⟩
  let twin (name : String) : Module :=
    { Module.ofIdentity (.ofName name ⟨1, 0, 0, 0⟩) .dll with
      types := [box]
      resources := [⟨"texts", .exported, []⟩] }
  { primary := ⟨⟨"first.dll"⟩, twin "first"⟩, others := [⟨⟨"second.dll"⟩, twin "second"⟩]
    references := [], attributeSource := none }

/-- The worker of the second module is ahead of that of the first one all along. -/
theorem freeze_twins_backwards :
    let s := (State.start twins).run [1, 1, 0, 0]
    Relation.ReflTransGen Step (.start twins) s ∧ s.Done ∧
      s.slots.map (fun slot => slot.contributors.map Declaration.origin) = [[⟨1, 0⟩, ⟨0, 0⟩]] ∧
      freeze s.slots s.resources s.attributes = (SymbolTable.ofSet twins).indexed := by
  intro s
  have hrun := run_steps (.start twins) [1, 1, 0, 0]
  have hpending : s.pending = [[], []] := rfl
  have hdone : s.Done := by
    rw [State.Done, hpending]
    simp
  exact ⟨hrun, hdone, rfl, ((freeze_of_done twins hrun).2 hdone _ (List.Perm.refl _)).1⟩

end Traversal

end ModuleLinker
