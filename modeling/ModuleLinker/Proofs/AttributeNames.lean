import ModuleLinker.Attribute
import ModuleLinker.Proofs.Text.Cutting

namespace ModuleLinker

/-! # The spellings of an attribute type

An entry of a drop list may name an attribute type in four ways: in full or by its simple name, and
each of them with or without the ending. `Attribute.nameMatches` takes the ending off the entry as
well as off the name, once on either side, and this is where the four spellings and the comparison
part: an entry that still has the ending after the name's own was taken off loses it too, and then
agrees with nothing. `shortName_eq_iff` says which texts are shortened to a given one, and the answer
for all entries follows from it.
-/

namespace Attribute

variable {name stem fullName entry : String}

/-! ## The ending -/

/-- The ending that attribute types have by custom. -/
def ending : String := "Attribute"

/-- A name with the ending. -/
def HasEnding (name : String) : Prop := ∃ stem, name = stem ++ ending

theorem hasEnding_iff : HasEnding name ↔ (Text.before? ending name).isSome := by
  simp only [HasEnding, Option.isSome_iff_exists, Text.before?_eq_some_iff]

instance : Decidable (HasEnding name) := decidable_of_iff _ hasEnding_iff.symm

theorem append_ending_inj {other : String} : stem ++ ending = other ++ ending ↔ stem = other := by
  rw [← String.toList_inj, String.toList_append, String.toList_append, List.append_left_inj,
    String.toList_inj]

/-- No text has the ending once more than itself. -/
theorem ne_append_ending : stem ≠ stem ++ ending := by
  intro h
  have hlength := congrArg (fun s => s.toList.length) h
  simp [String.toList_append, ending] at hlength

theorem shortName_append_ending : shortName (stem ++ ending) = stem := by
  have hbefore : Text.before? "Attribute" (stem ++ ending) = some stem := Text.before?_eq_some_iff.2 rfl
  rw [shortName, hbefore, Option.getD_some]

theorem shortName_of_not_hasEnding (h : ¬HasEnding name) : shortName name = name := by
  rw [shortName]
  cases hstem : Text.before? "Attribute" name with
  | none => rfl
  | some stem => exact absurd ⟨stem, Text.before?_eq_some_iff.1 hstem⟩ h

/-- The texts that a text is the short name of: the one with the ending added, and the text itself
unless it has the ending. -/
theorem shortName_eq_iff :
    shortName name = stem ↔ name = stem ++ ending ∨ (name = stem ∧ ¬HasEnding stem) := by
  by_cases h : HasEnding name
  · obtain ⟨front, rfl⟩ := h
    rw [shortName_append_ending, append_ending_inj]
    constructor
    · intro hfront
      exact .inl hfront
    · rintro (hfront | ⟨rfl, hnot⟩)
      · exact hfront
      · exact absurd ⟨front, rfl⟩ hnot
  · rw [shortName_of_not_hasEnding h]
    constructor
    · rintro rfl
      exact .inr ⟨rfl, h⟩
    · rintro (hname | ⟨hname, -⟩)
      · exact absurd ⟨stem, hname⟩ h
      · exact hname

/-! ## Simple names -/

/-- The characters of a name that are not between its parts. -/
def isInner (c : Char) : Bool := c != '.' && c != '/'

theorem toList_simpleName : (simpleName name).toList = name.toList.rtakeWhile isInner := by
  rw [simpleName, String.toList_ofList]
  rfl

/-- A simple name is the last part of the name. -/
theorem exists_append_simpleName (name : String) : ∃ lead, name = lead ++ simpleName name := by
  obtain ⟨lead, hlead⟩ := List.rtakeWhile_suffix isInner (l := name.toList)
  refine ⟨String.ofList lead, ?_⟩
  apply String.toList_injective
  rw [String.toList_append, String.toList_ofList, toList_simpleName, hlead]

theorem simpleName_simpleName : simpleName (simpleName name) = simpleName name := by
  apply String.toList_injective
  rw [toList_simpleName, toList_simpleName, List.rtakeWhile_idempotent]

theorem simpleName_append_ending : simpleName (name ++ ending) = simpleName name ++ ending := by
  apply String.toList_injective
  have hinner : ∀ c ∈ ending.toList.reverse, isInner c := List.all_eq_true.1 (by decide)
  rw [toList_simpleName, String.toList_append, String.toList_append, toList_simpleName,
    List.rtakeWhile, List.reverse_append, List.takeWhile_append_of_pos hinner, List.reverse_append,
    List.reverse_reverse, List.rtakeWhile]

theorem hasEnding_simpleName : HasEnding (simpleName name) ↔ HasEnding name := by
  constructor
  · rintro ⟨stem, hstem⟩
    obtain ⟨lead, hlead⟩ := exists_append_simpleName name
    refine ⟨lead ++ stem, ?_⟩
    rw [hlead, hstem, String.append_assoc]
  · rintro ⟨stem, rfl⟩
    exact ⟨simpleName stem, simpleName_append_ending⟩

/-- Taking the ending off and taking the simple name may change places. -/
theorem shortName_simpleName : shortName (simpleName name) = simpleName (shortName name) := by
  by_cases h : HasEnding name
  · obtain ⟨stem, rfl⟩ := h
    rw [simpleName_append_ending, shortName_append_ending, shortName_append_ending]
  · rw [shortName_of_not_hasEnding h]
    exact shortName_of_not_hasEnding (mt hasEnding_simpleName.1 h)

/-- No name is its own simple name with the ending. -/
theorem ne_simpleName_append_ending : name ≠ simpleName name ++ ending := by
  intro h
  have hsimple : simpleName name = simpleName name ++ ending := by
    conv_lhs => rw [h, simpleName_append_ending, simpleName_simpleName]
  exact ne_append_ending hsimple

/-! ## The four spellings -/

/-- The texts that name an attribute type: its full name and its simple name, and both without the
ending. -/
def spellings (fullName : String) : List String :=
  [fullName, simpleName fullName, shortName fullName, shortName (simpleName fullName)]

/-- What the comparison accepts: a short name with the ending, and a short name without it that has no
further ending. -/
theorem nameMatches_iff :
    nameMatches fullName entry ↔
      ∃ short ∈ [shortName fullName, shortName (simpleName fullName)],
        Text.trim entry = short ++ ending ∨ (Text.trim entry = short ∧ ¬HasEnding short) := by
  simp [nameMatches, shortName_eq_iff]

/-- A name is its short name with the ending, or its short name. -/
theorem eq_shortName_or (name : String) :
    name = shortName name ++ ending ∨ (name = shortName name ∧ ¬HasEnding (shortName name)) :=
  shortName_eq_iff.1 rfl

/-- An entry that is the name in full, or the simple name, as the type has it. -/
theorem nameMatches_of_unshortened
    (h : Text.trim entry = fullName ∨ Text.trim entry = simpleName fullName) :
    nameMatches fullName entry := by
  rw [nameMatches_iff]
  rcases h with h | h
  · refine ⟨shortName fullName, by simp, ?_⟩
    rw [h]
    exact eq_shortName_or _
  · refine ⟨shortName (simpleName fullName), by simp, ?_⟩
    rw [h]
    exact eq_shortName_or _

/-- With one ending at most, every spelling is accepted. -/
theorem nameMatches_of_mem_spellings (hstem : ¬HasEnding (shortName fullName))
    (h : Text.trim entry ∈ spellings fullName) : nameMatches fullName entry := by
  simp only [spellings, List.mem_cons, List.not_mem_nil, or_false, ← or_assoc] at h
  rcases h with (h | h) | h
  · exact nameMatches_of_unshortened h
  · exact nameMatches_iff.2 ⟨_, List.mem_cons_self, .inr ⟨h, hstem⟩⟩
  · rw [shortName_simpleName] at h
    refine nameMatches_iff.2 ⟨simpleName (shortName fullName), ?_, .inr ⟨h, mt hasEnding_simpleName.1 hstem⟩⟩
    simp [shortName_simpleName]

/-- With the ending twice, the full name without the last one is refused. -/
theorem not_nameMatches_of_two_endings (h : Text.trim entry = stem ++ ending) :
    ¬nameMatches (stem ++ ending ++ ending) entry := by
  rw [nameMatches_iff, shortName_simpleName, shortName_append_ending, simpleName_append_ending, h]
  rintro ⟨short, hshort, hentry⟩
  have hhas : HasEnding short := by
    simp only [List.mem_cons, List.not_mem_nil, or_false] at hshort
    rcases hshort with rfl | rfl
    · exact ⟨_, rfl⟩
    · exact ⟨_, rfl⟩
  rcases hentry with hentry | ⟨-, hnot⟩
  · rw [append_ending_inj] at hentry
    simp only [List.mem_cons, List.not_mem_nil, or_false] at hshort
    rcases hshort with rfl | rfl
    · exact ne_append_ending hentry
    · exact ne_simpleName_append_ending hentry
  · exact hnot hhas

/-- Nothing is trimmed off a name without its last ending but one. -/
theorem trim_of_two_endings (h : Text.trim (stem ++ ending ++ ending) = stem ++ ending ++ ending) :
    Text.trim (stem ++ ending) = stem ++ ending := by
  rw [Text.trim_eq_self_iff] at h ⊢
  have hne : (stem ++ ending).toList ≠ [] := by simp [ending, String.toList_append]
  have hhead : (stem ++ ending ++ ending).toList.head? = (stem ++ ending).toList.head? := by
    rw [String.toList_append, List.head?_append_of_ne_nil _ hne]
  have hlast : ∀ front : String, (front ++ ending).toList.getLast? = ending.toList.getLast? := by
    intro front
    rw [String.toList_append, List.getLast?_append_of_ne_nil _ (by decide)]
  rwa [hhead, hlast, ← hlast stem] at h

theorem hasEnding_shortName_iff :
    HasEnding (shortName fullName) ↔ ∃ stem, fullName = stem ++ ending ++ ending := by
  constructor
  · rintro ⟨stem, hstem⟩
    refine ⟨stem, ?_⟩
    rw [← hstem]
    rcases eq_shortName_or fullName with h | ⟨-, h⟩
    · exact h
    · exact absurd ⟨stem, hstem⟩ h
  · rintro ⟨stem, rfl⟩
    exact ⟨stem, shortName_append_ending⟩

/-- For every name that no blank surrounds: the full and the simple name are accepted; all four spellings
are, exactly where the name does not have the ending twice; and what is accepted is one of the four
spellings or one of them with the ending added. -/
theorem spellings_accepted (htrim : Text.trim fullName = fullName) :
    (∀ entry, Text.trim entry = fullName ∨ Text.trim entry = simpleName fullName →
      nameMatches fullName entry) ∧
    ((∀ entry, Text.trim entry ∈ spellings fullName → nameMatches fullName entry) ↔
      ¬∃ stem, fullName = stem ++ ending ++ ending) ∧
    ∀ entry, nameMatches fullName entry →
      ∃ spelling ∈ spellings fullName,
        Text.trim entry = spelling ∨ Text.trim entry = spelling ++ ending := by
  refine ⟨fun entry h => nameMatches_of_unshortened h, ⟨?_, ?_⟩, ?_⟩
  · rintro hall ⟨stem, rfl⟩
    have hentry := trim_of_two_endings htrim
    refine not_nameMatches_of_two_endings hentry (hall (stem ++ ending) ?_)
    simp [spellings, hentry, shortName_append_ending]
  · intro hnot entry hentry
    exact nameMatches_of_mem_spellings (mt hasEnding_shortName_iff.1 hnot) hentry
  · intro entry h
    obtain ⟨short, hshort, hentry⟩ := nameMatches_iff.1 h
    have hmem : short ∈ spellings fullName := by
      simp only [spellings, List.mem_cons, List.not_mem_nil, or_false] at hshort ⊢
      exact .inr (.inr hshort)
    refine ⟨short, hmem, ?_⟩
    rcases hentry with h | ⟨h, -⟩
    · exact .inr h
    · exact .inl h

/-- The name of a nested type: the parts that enclose the simple one go only with its namespace. -/
theorem spellings_accepted_nested :
    let name := "Lib.Outer/MarkAttribute"
    spellings name = [name, "MarkAttribute", "Lib.Outer/Mark", "Mark"] ∧
      (∀ entry, Text.trim entry ∈ spellings name → nameMatches name entry) ∧
      ¬nameMatches name "Outer/Mark" := by
  have hname : Text.trim "Lib.Outer/MarkAttribute" = "Lib.Outer/MarkAttribute" := by decide +kernel
  obtain ⟨-, hall, honly⟩ := spellings_accepted hname
  refine ⟨by decide +kernel, hall.2 (mt hasEnding_shortName_iff.2 (by decide +kernel)), ?_⟩
  intro hmatches
  exact absurd (honly _ hmatches) (by decide +kernel)

/-- Of a name that has the ending twice, the spelling with one ending less is refused. -/
theorem nameMatches_refuses_spelling :
    let name := "N.XAttributeAttribute"
    Text.trim name = name ∧ shortName name = "N.XAttribute" ∧ Text.trim "N.XAttribute" ∈ spellings name ∧
      ¬nameMatches name "N.XAttribute" := by
  decide +kernel

end Attribute

end ModuleLinker
