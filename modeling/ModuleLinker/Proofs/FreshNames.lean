import Mathlib.Data.List.Induction
import Mathlib.Data.List.Nodup
import Mathlib.Data.List.Perm.Subperm
import Mathlib.Data.List.TakeDrop
import Mathlib.Data.List.TakeWhile
import Std.Data.String.ToNat
import ModuleLinker.FreshNames

namespace ModuleLinker

/-! # Names that are handed out

A fresh name is one that was not taken, and taking it leaves all other names as they were. The search
for it always ends: the names to try are all different, and there is one more of them than there are
taken names.
-/

/-- In a namespace different names have different qualified names. -/
theorem qualifiedName_injective (namespaceName : String) :
    Function.Injective (qualifiedName namespaceName) := by
  intro name name' h
  unfold qualifiedName at h
  split at h
  · exact h
  · exact String.append_right_inj _ |>.1 h

namespace FreshNames

/-- Whether a qualified name is taken. -/
def Taken (names : FreshNames) (name : String) : Prop := name ∈ names.taken

theorem taken_of {names : List String} {name : String} : (of names).Taken name ↔ name ∈ names := by
  rw [Taken, of, Std.HashSet.mem_ofList, List.contains_iff_mem]

theorem isFree_iff {names : FreshNames} {namespaceName name : String} :
    names.isFree namespaceName name ↔ ¬ names.Taken (qualifiedName namespaceName name) := by
  simp [isFree, Taken]

/-! ## Candidates -/

/-- Different numbers give different names to try. -/
theorem eq_of_candidate_eq {name moduleName : String} {n m : Nat} (hn : 1 ≤ n) (hm : 1 ≤ m)
    (h : candidate name moduleName n = candidate name moduleName m) : n = m := by
  unfold candidate at h
  dsimp only at h
  rw [String.append_left_inj, String.append_right_inj] at h
  -- only the first name is without a number
  split at h <;> split at h
  · omega
  · exact absurd h.symm Nat.repr_ne_empty
  · exact absurd h Nat.repr_ne_empty
  · exact Nat.repr_inj.1 h

/-- One of the names to try is free. -/
theorem exists_free (names : FreshNames) (namespaceName name moduleName : String) :
    ∃ n ∈ List.range' 1 (names.taken.size + 1),
      names.isFree namespaceName (candidate name moduleName n) := by
  by_contra hnone
  push Not at hnone
  -- otherwise all of them are taken, and there are too many of them for that
  have hsub : (List.range' 1 (names.taken.size + 1)).map
      (fun n => qualifiedName namespaceName (candidate name moduleName n)) ⊆ names.taken.toList := by
    intro x hx
    rcases List.mem_map.1 hx with ⟨n, hn, rfl⟩
    have htaken := hnone n hn
    rw [Ne, isFree_iff, not_not] at htaken
    exact Std.HashSet.mem_toList.2 htaken
  have hnodup : ((List.range' 1 (names.taken.size + 1)).map
      (fun n => qualifiedName namespaceName (candidate name moduleName n))).Nodup := by
    refine List.Nodup.map_on ?_ List.nodup_range'
    intro n hn m hm h
    have hname := qualifiedName_injective namespaceName h
    exact eq_of_candidate_eq (List.left_le_of_mem_range' hn) (List.left_le_of_mem_range' hm) hname
  have hlength := (hnodup.subperm hsub).length_le
  rw [List.length_map, List.length_range', Std.HashSet.length_toList] at hlength
  omega

/-! ## Taking names -/

/-- Between two states the names `given` are taken: each of them was free before, no two of them
are the same, and all others are as they were. -/
structure Takes (names : FreshNames) (given : List String) (names' : FreshNames) : Prop where
  nodup : given.Nodup
  free : ∀ name ∈ given, ¬ names.Taken name
  taken : ∀ name, names'.Taken name ↔ name ∈ given ∨ names.Taken name

namespace Takes

variable {names names' names'' : FreshNames} {given more : List String}

theorem refl (names : FreshNames) : names.Takes [] names :=
  ⟨List.nodup_nil, nofun, by simp⟩

theorem trans (h : names.Takes given names') (h' : names'.Takes more names'') :
    names.Takes (given ++ more) names'' := by
  constructor
  · refine List.Nodup.append h.nodup h'.nodup fun name hgiven hmore => ?_
    exact h'.free name hmore ((h.taken name).2 (.inl hgiven))
  · intro name hname
    rcases List.mem_append.1 hname with hgiven | hmore
    · exact h.free name hgiven
    · exact fun htaken => h'.free name hmore ((h.taken name).2 (.inr htaken))
  · intro name
    rw [h'.taken, h.taken, List.mem_append]
    tauto

/-- What is taken stays so. -/
theorem mono (h : names.Takes given names') {name : String} (hname : names.Taken name) :
    names'.Taken name :=
  (h.taken name).2 (.inr hname)

end Takes

/-- The name that is handed out is the first one to try that is free. -/
theorem rename_eq (names : FreshNames) (namespaceName name moduleName : String) :
    ∃ n, (List.range' 1 (names.taken.size + 1)).find?
        (fun n => names.isFree namespaceName (candidate name moduleName n)) = some n ∧
      names.rename namespaceName name moduleName = (candidate name moduleName n,
        ⟨names.taken.insert (qualifiedName namespaceName (candidate name moduleName n))⟩) := by
  obtain ⟨n, hn, hfree⟩ := names.exists_free namespaceName name moduleName
  have hsome : ((List.range' 1 (names.taken.size + 1)).find? fun n =>
      names.isFree namespaceName (candidate name moduleName n)).isSome :=
    List.find?_isSome.2 ⟨n, hn, hfree⟩
  obtain ⟨first, hfirst⟩ := Option.isSome_iff_exists.1 hsome
  refine ⟨first, hfirst, ?_⟩
  unfold rename
  dsimp only
  rw [hfirst, Option.getD_some]

/-- A name that is handed out was free and is taken afterwards. -/
theorem rename_takes (names : FreshNames) (namespaceName name moduleName : String) :
    names.Takes [qualifiedName namespaceName (names.rename namespaceName name moduleName).1]
      (names.rename namespaceName name moduleName).2 := by
  obtain ⟨n, hfirst, heq⟩ := names.rename_eq namespaceName name moduleName
  have hfound := List.find?_some hfirst
  rw [heq]
  constructor
  · exact List.nodup_singleton _
  · intro other hother
    rw [List.mem_singleton.1 hother]
    exact isFree_iff.1 hfound
  · intro other
    rw [Taken, Std.HashSet.mem_insert, List.mem_singleton, beq_iff_eq, eq_comm]
    rfl

/-- A module's name of letters, digits and underscores is part of an identifier as it is. -/
theorem identifierOf_eq_self {moduleName : String}
    (h : ∀ c ∈ moduleName.toList, Text.isAlphanumeric c ∨ c = '_') :
    identifierOf moduleName = moduleName := by
  rw [identifierOf, ← String.toList_inj, String.toList_map]
  refine (List.map_congr_left fun c hc => ?_).trans (List.map_id _)
  exact if_pos (by simpa using h c hc)

/-- A name that is free without a number is handed out without one. -/
theorem rename_of_free {names : FreshNames} {namespaceName name moduleName : String}
    (h : ¬ names.Taken (qualifiedName namespaceName (candidate name moduleName 1))) :
    (names.rename namespaceName name moduleName).1 = candidate name moduleName 1 := by
  unfold rename
  dsimp only
  rw [List.range'_succ, List.find?_cons, isFree_iff.2 h]
  rfl

/-! ## Names for one type after another -/

/-- A type that a name is asked for: its namespace, its name and that of its module. -/
structure Request where
  namespaceName : String
  name : String
  moduleName : String
deriving DecidableEq, Repr

namespace Request

/-- The qualified name of the type under another name. -/
def qualify (r : Request) (new : String) : String := qualifiedName r.namespaceName new

/-- The name to try with a number. -/
def candidate (r : Request) (n : Nat) : String := FreshNames.candidate r.name r.moduleName n

/-- The arity of a generic type stays at the end of the names to try, and what stands before it at their
start. -/
theorem candidate_eq (r : Request) (n : Nat) : ∃ base arity, r.name = base ++ arity ∧
    arityMark ∉ base.toList ∧ (∀ c ∈ arity.toList.head?, c = arityMark) ∧
    r.candidate n = base ++ ("_" ++ identifierOf r.moduleName ++ if n ≤ 1 then "" else toString n) ++ arity := by
  refine ⟨.ofList (r.name.toList.takeWhile (· != arityMark)), .ofList (r.name.toList.dropWhile (· != arityMark)),
    ?_, ?_, ?_, ?_⟩
  · rw [← String.ofList_append, List.takeWhile_append_dropWhile, String.ofList_toList]
  · intro hmem
    rw [String.toList_ofList] at hmem
    exact absurd (List.mem_takeWhile_imp hmem) (by simp)
  · intro c hc
    rw [String.toList_ofList] at hc
    have hnot := List.head?_dropWhile_not (· != arityMark) r.name.toList
    rw [Option.mem_def.1 hc] at hnot
    simpa using hnot
  · unfold candidate FreshNames.candidate
    rw [List.span_eq_takeWhile_dropWhile]
    dsimp only
    simp only [String.append_assoc]

end Request

/-- A fresh name for a type. -/
def give (names : FreshNames) (r : Request) : String × FreshNames :=
  names.rename r.namespaceName r.name r.moduleName

/-- Fresh names for types, one after another: every type with its name, and the names taken in the end. -/
def giveAll (names : FreshNames) (requests : List Request) : List (Request × String) × FreshNames :=
  requests.foldl (fun (given, names) r => (given ++ [(r, (names.give r).1)], (names.give r).2)) ([], names)

/-- The search for a free name from a number on. It tries the names with this number, with the next one and so
on, finds all of them taken but the last one, and ends with that one. -/
inductive Search (names : FreshNames) (r : Request) : (n : Nat) → (tried : List String) → (new : String) → Prop
  | found {n : Nat} (h : ¬ names.Taken (r.qualify (r.candidate n))) :
    Search names r n [r.candidate n] (r.candidate n)
  | next {n : Nat} {tried : List String} {new : String} (h : names.Taken (r.qualify (r.candidate n)))
    (hrest : Search names r (n + 1) tried new) : Search names r n (r.candidate n :: tried) new

/-- A search ends where it comes to a name that is free. -/
theorem search_of_find? {names : FreshNames} {r : Request} {start room n : Nat}
    (h : (List.range' start room).find? (fun n => names.isFree r.namespaceName (r.candidate n)) = some n) :
    names.Search r start ((List.range' start (n + 1 - start)).map r.candidate) (r.candidate n) := by
  induction room generalizing start with
  | zero => exact nomatch h
  | succ room ih =>
    rw [List.range'_succ, List.find?_cons] at h
    have hfree : names.isFree r.namespaceName (r.candidate start) ↔
        ¬ names.Taken (r.qualify (r.candidate start)) := isFree_iff
    split at h
    case h_1 hstart =>
      obtain rfl := Option.some.inj h
      rw [Nat.add_sub_cancel_left]
      exact .found (hfree.1 hstart)
    case h_2 hstart =>
      have hle : start + 1 ≤ n := List.left_le_of_mem_range' (List.mem_of_find?_eq_some h)
      obtain ⟨room', hroom⟩ : ∃ k, n + 1 - start = k + 1 := ⟨n - start, by omega⟩
      rw [hroom, List.range'_succ, List.map_cons]
      have hrest := ih h
      rw [show n + 1 - (start + 1) = room' by omega] at hrest
      exact .next (not_not.1 fun hfree' => by simp [hfree.2 hfree'] at hstart) hrest

/-- The names given out one after another take nothing twice. -/
theorem giveAll_takes (names : FreshNames) (requests : List Request) :
    names.Takes ((names.giveAll requests).1.map fun e => e.1.qualify e.2) (names.giveAll requests).2 := by
  induction requests using List.reverseRecOn with
  | nil => exact .refl names
  | append_singleton requests r ih =>
    rw [giveAll, List.foldl_append, List.foldl_cons, List.foldl_nil, ← giveAll, List.map_append]
    exact ih.trans (rename_takes ..)

theorem map_fst_giveAll (names : FreshNames) (requests : List Request) :
    (names.giveAll requests).1.map Prod.fst = requests := by
  induction requests using List.reverseRecOn with
  | nil => rfl
  | append_singleton requests r ih =>
    rw [giveAll, List.foldl_append, List.foldl_cons, List.foldl_nil, ← giveAll, List.map_append, ih]
    rfl

/-- Whatever names are taken at first and whatever types have got names since, the next type gets a name, too.
The search for it ends; the names that it tries are all different. What it ends with has a qualified name that
was not taken at first and was given to no type before. It starts with what the old name has before the arity
of a generic type, and ends with this arity. -/
theorem giveAll_fresh (initial : List String) (before : List Request) (r : Request) :
    let (given, names) := (of initial).giveAll before
    let new := (names.give r).1
    given.map Prod.fst = before ∧
    (∃ tried, names.Search r 1 tried new ∧ tried.Nodup) ∧
    r.qualify new ∉ initial ∧
    (∀ e ∈ given, e.1.qualify e.2 ≠ r.qualify new) ∧
    ∃ base middle arity, r.name = base ++ arity ∧ arityMark ∉ base.toList ∧
      (∀ c ∈ arity.toList.head?, c = arityMark) ∧ new = base ++ middle ++ arity := by
  dsimp only
  have hbefore := giveAll_takes (of initial) before
  have hnew : ¬ ((of initial).giveAll before).2.Taken (r.qualify (((of initial).giveAll before).2.give r).1) :=
    (rename_takes _ r.namespaceName r.name r.moduleName).free _ List.mem_cons_self
  obtain ⟨n, hfirst, heq⟩ := rename_eq ((of initial).giveAll before).2 r.namespaceName r.name r.moduleName
  have hgive : (((of initial).giveAll before).2.give r).1 = r.candidate n := congrArg Prod.fst heq
  obtain ⟨base, arity, hname, hbase, harity, hcandidate⟩ := r.candidate_eq n
  refine ⟨map_fst_giveAll _ _, ⟨_, hgive ▸ search_of_find? hfirst, ?_⟩, ?_, ?_, base, _, arity, hname, hbase,
    harity, hgive.trans hcandidate⟩
  · refine List.Nodup.map_on ?_ List.nodup_range'
    intro i hi j hj heq
    exact eq_of_candidate_eq (List.left_le_of_mem_range' hi) (List.left_le_of_mem_range' hj) heq
  · intro hinitial
    exact hnew (hbefore.mono (taken_of.2 hinitial))
  · intro e he heq
    exact hnew ((hbefore.taken _).2 (.inl (heq ▸ List.mem_map_of_mem (f := fun e => e.1.qualify e.2) he)))

end FreshNames

end ModuleLinker
