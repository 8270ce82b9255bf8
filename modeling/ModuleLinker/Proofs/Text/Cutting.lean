import Mathlib.Data.List.DropRight
import Mathlib.Data.List.TakeWhile
import ModuleLinker.Text.Split

namespace ModuleLinker

/-! # Cut and trimmed texts

What a text is made of that was cut at a lead, at an ending or at separators, and which texts trimming leaves
as they are. Runs between separators are those of the library's `List.splitOnP`, whose lemmas are used for
them.
-/

namespace Text

variable {lead tail s rest : String} {drop separates : Char → Bool} {c : Char} {cs : List Char}

/-! ## Leads and endings -/

theorem after?_eq_some_iff : after? lead s = some tail ↔ s = lead ++ tail := by
  unfold after?
  rw [Option.map_eq_some_iff]
  constructor
  · rintro ⟨rest, hrest, rfl⟩
    rw [List.isPrefixOf?_eq_some_iff_append_eq] at hrest
    rw [← String.ofList_toList (s := s), ← hrest, String.ofList_append, String.ofList_toList]
  · rintro rfl
    refine ⟨tail.toList, ?_, String.ofList_toList⟩
    rw [List.isPrefixOf?_eq_some_iff_append_eq, String.toList_append]

theorem after?_append : after? lead (lead ++ tail) = some tail := after?_eq_some_iff.2 rfl

/-- A text that begins with another character does not begin with the lead. -/
theorem after?_append_of_head {other : String} {c d : Char} (hlead : lead.toList.head? = some c)
    (hother : other.toList.head? = some d) (h : c ≠ d) : after? lead (other ++ tail) = none := by
  rw [after?, String.toList_append, ← List.cons_head?_tail hlead, ← List.cons_head?_tail hother,
    List.cons_append, List.isPrefixOf?, if_neg (by rwa [beq_iff_eq]), Option.map_none]

theorem before?_eq_some_iff : before? tail s = some rest ↔ s = rest ++ tail := by
  rw [before?, Option.map_eq_some_iff]
  constructor
  · rintro ⟨front, hfront, rfl⟩
    rw [List.isSuffixOf?_eq_some_iff_append_eq] at hfront
    apply String.toList_injective
    rw [String.toList_append, String.toList_ofList, hfront]
  · intro h
    refine ⟨rest.toList, ?_, String.ofList_toList⟩
    rw [List.isSuffixOf?_eq_some_iff_append_eq, h, String.toList_append]

/-! ## Trimming -/

theorem trimBy_eq : trimBy drop cs = (cs.dropWhile drop).rdropWhile drop := rfl

/-- Trimming changes nothing where neither end is to be dropped. -/
theorem trimBy_eq_self_iff :
    trimBy drop cs = cs ↔ (∀ c ∈ cs.head?, ¬drop c) ∧ ∀ c ∈ cs.getLast?, ¬drop c := by
  have hfront : cs.dropWhile drop = cs ↔ ∀ c ∈ cs.head?, ¬drop c := by
    cases cs with
    | nil => simp
    | cons c rest => simp [List.dropWhile_eq_self_iff]
  have hback : cs.rdropWhile drop = cs ↔ ∀ c ∈ cs.getLast?, ¬drop c := by
    rw [List.rdropWhile_eq_self_iff]
    constructor
    · intro h c hc
      obtain ⟨hne, rfl⟩ := List.mem_getLast?_eq_getLast hc
      exact h hne
    · intro h hne
      exact h _ (List.getLast?_eq_some_getLast hne)
  rw [← hfront, ← hback, trimBy_eq]
  constructor
  · intro h
    -- What is left of a list after both cuts is the list, so the first cut took nothing.
    have hlength : cs.length ≤ (cs.dropWhile drop).length := by
      conv_lhs => rw [← h]
      exact (List.rdropWhile_prefix drop _).length_le
    have hdrop := (List.dropWhile_suffix drop).eq_of_length_le hlength
    exact ⟨hdrop, by rwa [hdrop] at h⟩
  · rintro ⟨hdrop, hrdrop⟩
    rw [hdrop, hrdrop]

theorem trimBy_trimBy : trimBy drop (trimBy drop cs) = trimBy drop cs := by
  rw [trimBy_eq_self_iff, trimBy_eq]
  constructor
  · intro c hc
    obtain ⟨cut, hcut⟩ := List.rdropWhile_prefix drop (cs.dropWhile drop)
    have hhead := List.head?_dropWhile_not drop cs
    rw [← hcut, List.head?_append, Option.mem_def.1 hc] at hhead
    simpa using hhead
  · intro c hc
    obtain ⟨hne, rfl⟩ := List.mem_getLast?_eq_getLast hc
    exact List.rdropWhile_last_not drop _ hne

theorem mem_of_mem_trimBy (h : c ∈ trimBy drop cs) : c ∈ cs :=
  (List.dropWhile_suffix drop).subset ((List.rdropWhile_prefix drop _).subset h)

/-- Trimming takes a front and a back that are to be dropped. -/
theorem exists_trimBy (drop : Char → Bool) (cs : List Char) : ∃ front back,
    (∀ c ∈ front, drop c) ∧ (∀ c ∈ back, drop c) ∧ cs = front ++ trimBy drop cs ++ back := by
  refine ⟨cs.takeWhile drop, (cs.dropWhile drop).rtakeWhile drop, ?_, ?_, ?_⟩
  · intro c hc
    exact List.mem_takeWhile_imp hc
  · intro c hc
    exact List.mem_rtakeWhile_imp hc
  · rw [trimBy_eq, List.append_assoc, List.rdropWhile_append_rtakeWhile, List.takeWhile_append_dropWhile]

theorem trimBy_eq_nil_iff : trimBy drop cs = [] ↔ ∀ c ∈ cs, drop c := by
  constructor
  · intro h c hc
    obtain ⟨front, back, hfront, hback, hcs⟩ := exists_trimBy drop cs
    rw [hcs, h, List.append_nil] at hc
    exact (List.mem_append.1 hc).elim (hfront c) (hback c)
  · intro h
    rw [trimBy_eq, List.dropWhile_eq_nil_iff.2 h, List.rdropWhile_nil]

theorem trim_eq_self_iff :
    trim s = s ↔ (∀ c ∈ s.toList.head?, ¬isBlank c) ∧ ∀ c ∈ s.toList.getLast?, ¬isBlank c := by
  rw [← trimBy_eq_self_iff, trim, ← String.toList_inj, String.toList_ofList]

theorem trim_trim (s : String) : trim (trim s) = trim s := by
  rw [trim, trim, String.toList_ofList, trimBy_trimBy]

theorem mem_of_mem_trim (h : c ∈ (trim s).toList) : c ∈ s.toList := by
  rw [trim, String.toList_ofList] at h
  exact mem_of_mem_trimBy h

theorem trim_eq_self_of_forall (h : ∀ c ∈ s.toList, ¬isBlank c) : trim s = s :=
  trim_eq_self_iff.2 ⟨fun c hc => h c (List.mem_of_mem_head? hc),
    fun c hc => h c (List.mem_of_mem_getLast? hc)⟩

/-- A blank before a text is trimmed off. -/
theorem trim_singleton_append (h : isBlank c) : trim (String.singleton c ++ s) = trim s := by
  rw [trim, trim, String.toList_append, String.toList_singleton, List.singleton_append, trimBy, trimBy,
    List.dropWhile_cons_of_pos h]

/-- A text behind a lead without blanks keeps the lead, and itself unless it ends in a blank. -/
theorem trim_append_eq_self (hne : lead ≠ "") (hlead : ¬lead.toList.any isBlank)
    (htail : ∀ c ∈ tail.toList.getLast?, ¬isBlank c) : trim (lead ++ tail) = lead ++ tail := by
  have hlead : ∀ c ∈ lead.toList, ¬isBlank c := fun c hc hblank => hlead (List.any_eq_true.2 ⟨c, hc, hblank⟩)
  obtain ⟨first, more, hcs⟩ := List.exists_cons_of_ne_nil (mt String.toList_eq_nil_iff.1 hne)
  rw [trim_eq_self_iff, String.toList_append, List.getLast?_append, hcs]
  rw [hcs] at hlead
  constructor
  · intro c hc
    obtain rfl := Option.mem_some.1 hc
    exact hlead _ List.mem_cons_self
  · intro c hc
    rcases Option.or_eq_some_iff.1 hc with hc | ⟨-, hc⟩
    · exact htail c hc
    · exact hlead c (List.mem_of_mem_getLast? hc)

/-- A text that trimming leaves as it is does not end in a blank, nor does what is left of it behind a
lead. -/
theorem getLast?_of_trim_append (h : trim (lead ++ tail) = lead ++ tail) :
    ∀ c ∈ tail.toList.getLast?, ¬isBlank c := by
  intro c hc
  apply (trim_eq_self_iff.1 h).2
  rw [String.toList_append, List.getLast?_append, Option.mem_def.1 hc]
  rfl

/-! ## Runs between separators -/

theorem splitBy_eq_splitOnP : splitBy separates cs = cs.splitOnP separates := by
  induction cs with
  | nil => rfl
  | cons c rest ih =>
    rw [splitBy, List.splitOnP_cons_eq_if_modifyHead, ih]
    split
    · rfl
    · cases hruns : rest.splitOnP separates with
      | nil => exact absurd hruns (List.splitOnP_ne_nil _ _)
      | cons run runs => rfl

theorem not_separates_of_mem_splitBy {run : List Char} (hrun : run ∈ splitBy separates cs)
    (hc : c ∈ run) : ¬separates c := by
  fun_induction splitBy separates cs generalizing run with
  | case1 =>
    obtain rfl := List.mem_singleton.1 hrun
    exact nomatch hc
  | case2 d rest hd ih =>
    rcases List.mem_cons.1 hrun with rfl | hrun
    · exact nomatch hc
    · exact ih hrun hc
  | case3 d rest hd hnil ih =>
    obtain rfl := List.mem_singleton.1 hrun
    obtain rfl := List.mem_singleton.1 hc
    exact hd
  | case4 d rest hd first runs hruns ih =>
    rw [hruns] at ih
    rcases List.mem_cons.1 hrun with rfl | hrun
    · rcases List.mem_cons.1 hc with rfl | hc
      · exact hd
      · exact ih List.mem_cons_self hc
    · exact ih (List.mem_cons_of_mem _ hrun) hc

theorem split_append (h : ∀ c ∈ s.toList, ¬separates c) (hc : separates c) :
    split separates (s ++ (String.singleton c ++ rest)) = s :: split separates rest := by
  rw [split, split, String.toList_append, String.toList_append, String.toList_singleton,
    List.singleton_append, splitBy_eq_splitOnP, splitBy_eq_splitOnP,
    List.splitOnP_append_cons_of_forall_mem (fun x hx => Bool.eq_false_iff.2 (h x hx)) c hc,
    List.map_cons, String.ofList_toList]

theorem split_of_forall (h : ∀ c ∈ s.toList, ¬separates c) : split separates s = [s] := by
  rw [split, splitBy_eq_splitOnP, List.splitOnP_eq_singleton fun x hx => Bool.eq_false_iff.2 (h x hx),
    List.map_singleton, String.ofList_toList]

theorem not_separates_of_mem_split {part : String} (hpart : part ∈ split separates s)
    (hc : c ∈ part.toList) : ¬separates c := by
  obtain ⟨run, hrun, rfl⟩ := List.mem_map.1 hpart
  rw [String.toList_ofList] at hc
  exact not_separates_of_mem_splitBy hrun hc

/-- Parts that are joined are cut apart again. -/
theorem split_intercalate (hc : separates c) {parts : List String} (hne : parts ≠ [])
    (h : ∀ part ∈ parts, ∀ c ∈ part.toList, ¬separates c) :
    split separates ((String.singleton c).intercalate parts) = parts := by
  induction parts with
  | nil => exact absurd rfl hne
  | cons part rest ih =>
    obtain ⟨hpart, hrest⟩ := List.forall_mem_cons.1 h
    cases rest with
    | nil =>
      rw [String.intercalate_singleton]
      exact split_of_forall hpart
    | cons next rest =>
      rw [String.intercalate_cons_cons, String.append_assoc, split_append hpart hc,
        ih (List.cons_ne_nil _ _) hrest]

end Text

end ModuleLinker
