import Mathlib.Data.List.Nodup
import ModuleLinker.Proofs.Xml.Texts

namespace ModuleLinker.Xml

/-! # Members of merged documentation

Members are known by their ids, which are compared after the types of each module got their new names. A
member is left out if one before it has its id, in the same file or in an earlier one, and a member without
an id is never left out. So a merged file has the members of all files in their order, each id once, with
the content that it has where it is declared first.
-/

/-- The id of a member. -/
def Element.id? (member : Element) : Option String := member.attribute? "name"

/-- A member with the id that it has after the renames of its module. -/
def DocumentationSource.renamed (source : DocumentationSource) (member : Element) : Element :=
  match member.id? with
  | none => member
  | some id => member.setAttribute "name" (renameMemberId id source.renames source.namespaces)

/-- The members that the file of a source declares, with their ids after renames. -/
def DocumentationSource.members (source : DocumentationSource) : List Element :=
  match parse source.data with
  | .ok root => (membersOf root).map source.renamed
  | .error _ => []

/-- The members without those whose id a member before them has. -/
def firstMembers (members : List Element) : List Element :=
  (members.zipIdx.filter fun (member, i) =>
    member.id?.all fun id => !(members.take i).any (·.id? == some id)).map Prod.fst

/-! ## Ids -/

theorem lookup_setPair (key value : String) (pairs : List Pair) :
    (Element.setPair key value pairs).lookup key = some value := by
  induction pairs with
  | nil => rw [Element.setPair, List.lookup_cons_self]
  | cons pair pairs ih =>
    obtain ⟨k, v⟩ := pair
    rw [Element.setPair]
    by_cases hkey : k = key
    · rw [if_pos hkey, hkey, List.lookup_cons_self]
    · have hne : (key == k) = false := beq_false_of_ne (Ne.symm hkey)
      rw [if_neg hkey, List.lookup_cons, hne, ih]

theorem id?_renamed (source : DocumentationSource) (member : Element) :
    (source.renamed member).id? = member.id?.map (renameMemberId · source.renames source.namespaces) := by
  rw [DocumentationSource.renamed]
  cases hid : member.id? with
  | none => exact hid
  | some id => exact lookup_setPair _ _ _

/-! ## First members -/

section

variable {members : List Element} {member : Element} {id : String}

/-- Whether some member has an id. -/
def HasId (members : List Element) (id : String) : Prop := ∃ member ∈ members, member.id? = some id

theorem any_id?_iff : members.any (·.id? == some id) ↔ HasId members id := by
  rw [List.any_eq_true]
  exact exists_congr fun m => and_congr_right fun _ => beq_iff_eq

theorem hasId_append {more : List Element} :
    HasId (members ++ more) id ↔ HasId members id ∨ HasId more id := by
  simp [HasId, or_and_right, exists_or]

/-- A further member is one more at the end, unless its id is there already. -/
theorem firstMembers_append_singleton (members : List Element) (member : Element) :
    firstMembers (members ++ [member]) = firstMembers members ++
      if member.id?.all fun id => !members.any (·.id? == some id) then [member] else [] := by
  have hbefore (entry : Element × Nat) (hentry : entry ∈ members.zipIdx) :
      (members ++ [member]).take entry.2 = members.take entry.2 := by
    have hlength := List.snd_lt_of_mem_zipIdx hentry
    exact List.take_append_of_le_length (by omega)
  have hlast : (members ++ [member]).take members.length = members := List.take_left' rfl
  rw [firstMembers, firstMembers, List.zipIdx_append, List.filter_append, List.map_append]
  congr 1
  · congr 1
    refine List.filter_congr fun entry hentry => ?_
    dsimp only
    rw [hbefore entry hentry]
  · simp only [List.zipIdx_cons, List.zipIdx_nil, Nat.zero_add, List.filter_cons, List.filter_nil, hlast]
    split <;> rfl

theorem firstMembers_append_new (h : ∀ id, member.id? = some id → ¬HasId members id) :
    firstMembers (members ++ [member]) = firstMembers members ++ [member] := by
  rw [firstMembers_append_singleton, if_pos]
  cases hid : member.id? with
  | none => rfl
  | some id => simpa [any_id?_iff] using mt any_id?_iff.1 (h id hid)

theorem firstMembers_append_known (hid : member.id? = some id) (h : HasId members id) :
    firstMembers (members ++ [member]) = firstMembers members := by
  rw [firstMembers_append_singleton, hid, Option.all_some, any_id?_iff.2 h]
  exact List.append_nil _

theorem firstMembers_sublist (members : List Element) : (firstMembers members).Sublist members := by
  have hsublist := (List.filter_sublist (p := fun (member, i) =>
    member.id?.all fun id => !(members.take i).any (·.id? == some id)) (l := members.zipIdx)).map Prod.fst
  rwa [List.zipIdx_map_fst] at hsublist

/-- Members are added one by one: the ids of those that are added are new, or the member is left out. -/
theorem firstMembers_induction {p : List Element → List Element → Prop} (nil : p [] [])
    (new : ∀ members member, (∀ id, member.id? = some id → ¬HasId members id) →
      p members (firstMembers members) → p (members ++ [member]) (firstMembers members ++ [member]))
    (known : ∀ members member id, member.id? = some id → HasId members id →
      p members (firstMembers members) → p (members ++ [member]) (firstMembers members))
    (members : List Element) : p members (firstMembers members) := by
  induction members using List.reverseRecOn with
  | nil => exact nil
  | append_singleton members member ih =>
    by_cases hnew : ∀ id, member.id? = some id → ¬HasId members id
    · rw [firstMembers_append_new hnew]
      exact new members member hnew ih
    · push Not at hnew
      obtain ⟨id, hid, hknown⟩ := hnew
      rw [firstMembers_append_known hid hknown]
      exact known members member id hid hknown ih

/-- No id is lost. -/
theorem hasId_firstMembers (members : List Element) : HasId (firstMembers members) id ↔ HasId members id := by
  induction members using firstMembers_induction with
  | nil => rfl
  | new members member hnew ih => rw [hasId_append, hasId_append, ih]
  | known members member other hid hknown ih =>
    rw [ih, hasId_append]
    constructor
    · exact .inl
    · rintro (h | ⟨m, hm, hid'⟩)
      · exact h
      · rw [List.mem_singleton.1 hm, hid] at hid'
        rwa [← Option.some.inj hid']

/-- No id is there twice. -/
theorem nodup_firstMembers (members : List Element) : ((firstMembers members).filterMap Element.id?).Nodup := by
  induction members using firstMembers_induction with
  | nil => exact List.nodup_nil
  | new members member hnew ih =>
    rw [List.filterMap_append]
    cases hid : member.id? with
    | none =>
      rw [List.filterMap_cons_none hid, List.filterMap_nil, List.append_nil]
      exact ih
    | some id =>
      have habsent : id ∉ (firstMembers members).filterMap Element.id? := by
        intro hmem
        obtain ⟨m, hm, hid'⟩ := List.mem_filterMap.1 hmem
        exact hnew id hid ((hasId_firstMembers members).1 ⟨m, hm, hid'⟩)
      rw [List.filterMap_cons_some hid, List.filterMap_nil]
      exact List.concat_eq_append ▸ ih.concat habsent
  | known members member id hid hknown ih => exact ih

/-- Members without an id are all kept. -/
theorem filter_firstMembers (members : List Element) :
    (firstMembers members).filter (·.id? == none) = members.filter (·.id? == none) := by
  induction members using firstMembers_induction with
  | nil => rfl
  | new members member hnew ih => rw [List.filter_append, List.filter_append, ih]
  | known members member id hid hknown ih =>
    rw [ih, List.filter_append, List.filter_singleton, hid]
    exact (List.append_nil _).symm

/-- Of the members with an id it is the first that is kept. -/
theorem find?_firstMembers (members : List Element) (id : String) :
    (firstMembers members).find? (·.id? == some id) = members.find? (·.id? == some id) := by
  induction members using firstMembers_induction with
  | nil => rfl
  | new members member hnew ih => rw [List.find?_append, List.find?_append, ih]
  | known members member other hid hknown ih =>
    rw [ih, List.find?_append]
    by_cases hsame : other = id
    · obtain ⟨m, hm, hfirst⟩ := hknown
      have hsome : (members.find? (·.id? == some id)).isSome := by
        rw [List.find?_isSome]
        exact ⟨m, hm, by rw [hfirst, hsame]; exact beq_self_eq_true _⟩
      rw [Option.or_of_isSome hsome]
    · have hnone : [member].find? (·.id? == some id) = none := by
        rw [List.find?_singleton, hid, if_neg (by simpa using hsame)]
      rw [hnone, Option.or_none]

end

/-! ## Merging -/

namespace DocumentationMembers

variable {members : DocumentationMembers} {declared : List Element} {source : DocumentationSource}

/-- Whether these are the ids and the members that are kept of what was declared so far. -/
structure Of (declared : List Element) (members : DocumentationMembers) : Prop where
  seen : ∀ id, id ∈ members.seen ↔ HasId declared id
  kept : members.kept = firstMembers declared

namespace Of

theorem offer (h : Of declared members) (source : DocumentationSource) (member : Element) :
    Of (declared ++ [source.renamed member]) (DocumentationMembers.offer source members member) := by
  have hrenamed := id?_renamed source member
  have hseen (id : String) (hid : (source.renamed member).id? = some id) (other : String) :
      HasId (declared ++ [source.renamed member]) other ↔ other = id ∨ HasId declared other := by
    rw [hasId_append, or_comm]
    simp [HasId, hid, eq_comm]
  rw [DocumentationMembers.offer]
  cases hid : member.attribute? "name" with
  | none =>
    have hnone : (source.renamed member).id? = none := by
      rw [hrenamed, Element.id?, hid, Option.map_none]
    have hsame : source.renamed member = member := by
      rw [DocumentationSource.renamed, Element.id?, hid]
    refine ⟨fun id => ?_, ?_⟩
    · rw [h.seen, hasId_append]
      simp [HasId, hnone]
    · rw [firstMembers_append_new (by simp [hnone]), ← h.kept, hsame]
  | some old =>
    let new := renameMemberId old source.renames source.namespaces
    have hnew : (source.renamed member).id? = some new := by
      rw [hrenamed, Element.id?, hid, Option.map_some]
    have hsame : source.renamed member = member.setAttribute "name" new := by
      rw [DocumentationSource.renamed, Element.id?, hid]
    dsimp only
    split
    case isTrue hknown =>
      have hdeclared : HasId declared new := (h.seen new).1 (List.contains_iff_mem.1 hknown)
      refine ⟨fun id => ?_, ?_⟩
      · rw [h.seen, hseen new hnew]
        exact ⟨.inr, fun hid => hid.elim (fun heq => heq ▸ hdeclared) fun hold => hold⟩
      · rw [firstMembers_append_known hnew hdeclared, h.kept]
    case isFalse hfresh =>
      refine ⟨fun id => ?_, ?_⟩
      · rw [List.mem_cons, h.seen, hseen new hnew]
      · rw [firstMembers_append_new, h.kept, hsame]
        rintro id hid hdeclared
        rw [hnew] at hid
        obtain rfl := Option.some.inj hid
        exact hfresh (List.contains_iff_mem.2 ((h.seen new).2 hdeclared))

theorem foldl_offer (h : Of declared members) (source : DocumentationSource) (offered : List Element) :
    Of (declared ++ offered.map source.renamed) (offered.foldl (DocumentationMembers.offer source) members) := by
  induction offered generalizing declared members with
  | nil => rwa [List.map_nil, List.append_nil]
  | cons member offered ih =>
    have hrest := ih (h.offer source member)
    rwa [List.append_assoc, List.singleton_append] at hrest

theorem offerAll (h : Of declared members) {root : Element} (hroot : parse source.data = .ok root) :
    ∃ members', members.offerAll source = .ok members' ∧ Of (declared ++ source.members) members' := by
  rw [offerAll_eq, DocumentationSource.members, hroot]
  exact ⟨_, rfl, h.foldl_offer source (membersOf root)⟩

theorem foldlM_offerAll (h : Of declared members) {sources : List DocumentationSource}
    (hread : ∀ source ∈ sources, ∃ root, parse source.data = .ok root) :
    ∃ members', sources.foldlM DocumentationMembers.offerAll members = .ok members' ∧
      Of (declared ++ sources.flatMap DocumentationSource.members) members' := by
  induction sources generalizing declared members with
  | nil => exact ⟨members, rfl, by rwa [List.flatMap_nil, List.append_nil]⟩
  | cons source sources ih =>
    obtain ⟨⟨root, hroot⟩, hread⟩ := List.forall_mem_cons.1 hread
    obtain ⟨middle, hmiddle, hof⟩ := h.offerAll hroot
    obtain ⟨members', hmembers', hall⟩ := ih hof hread
    refine ⟨members', ?_, by rwa [List.append_assoc] at hall⟩
    rw [List.foldlM_cons, hmiddle]
    exact hmembers'

end Of

end DocumentationMembers

/-- Files that are read are merged. The merged file has one list of members: those of all files, with their
ids after renames and in their order, without those whose id an earlier one has. No id is there twice and
none is lost, all members without an id are kept, and under an id there is the member that declares it
first. -/
theorem mergeDocumentation_firstMembers (assembly : String) {sources : List DocumentationSource}
    (hread : ∀ source ∈ sources, ∃ root, parse source.data = .ok root) :
    let declared := sources.flatMap DocumentationSource.members
    let kept := firstMembers declared
    let document := documentationTree assembly kept
    mergeDocumentation assembly sources = .ok (write document) ∧
      (∃ list, document.elements.filter (·.name == "members") = [list] ∧
        list.children = kept.map Element.toNode) ∧
      kept.Sublist declared ∧ (kept.filterMap Element.id?).Nodup ∧
      (∀ id, id ∈ kept.filterMap Element.id? ↔ id ∈ declared.filterMap Element.id?) ∧
      kept.filter (·.id? == none) = declared.filter (·.id? == none) ∧
      ∀ id, kept.find? (·.id? == some id) = declared.find? (·.id? == some id) := by
  intro declared kept document
  have hstart : DocumentationMembers.Of [] ⟨[], []⟩ := ⟨by simp [HasId], rfl⟩
  obtain ⟨members, hmembers, hof⟩ := hstart.foldlM_offerAll hread
  have hkept : members.kept = kept := hof.kept
  have hids (xs : List Element) (id : String) : id ∈ xs.filterMap Element.id? ↔ HasId xs id :=
    List.mem_filterMap
  refine ⟨?_, ⟨.ofChildren "members" (kept.map Element.toNode), rfl, rfl⟩, firstMembers_sublist declared,
    nodup_firstMembers declared, fun id => ?_, filter_firstMembers declared, find?_firstMembers declared⟩
  · show mergeDocumentation assembly sources = .ok (write (documentationTree assembly kept))
    rw [mergeDocumentation, hmembers, ← hkept]
    rfl
  · rw [hids, hids]
    exact hasId_firstMembers declared

/-- A renamed type of the second file has the id of a type of the third one, and a member of each is without
an id. -/
theorem mergeDocumentation_firstMembers_renamed :
    let member (id text : String) : Element := ⟨"member", [("name", id)], [.text text]⟩
    let source (text : String) (renames : List (String × String)) : DocumentationSource :=
      ⟨Utf8.encode text, renames, ["N"]⟩
    let sources : List DocumentationSource := [
      source "<doc><members><member name=\"T:N.T\">a</member><member>b</member></members></doc>" [],
      source "<doc><members><member name=\"T:N.T\">c</member></members></doc>" [("N.T", "N.T_B")],
      source "<doc><members><member name=\"T:N.T_B\">d</member><member>b</member></members></doc>" []]
    (∀ source ∈ sources, ∃ root, parse source.data = .ok root) ∧
      firstMembers (sources.flatMap DocumentationSource.members) =
        [member "T:N.T" "a", ⟨"member", [], [.text "b"]⟩, member "T:N.T_B" "c", ⟨"member", [], [.text "b"]⟩] ∧
      mergeDocumentation "A" sources = .ok (write (documentationTree "A" [member "T:N.T" "a",
        ⟨"member", [], [.text "b"]⟩, member "T:N.T_B" "c", ⟨"member", [], [.text "b"]⟩])) := by
  intro member source sources
  have hread : ∀ source ∈ sources, ∃ root, parse source.data = .ok root := by
    have hok : ∀ source ∈ sources, (parse source.data).isOk := by decide +kernel
    exact fun source hsource => exists_eq_ok (hok source hsource)
  have hkept : firstMembers (sources.flatMap DocumentationSource.members) =
      [member "T:N.T" "a", ⟨"member", [], [.text "b"]⟩, member "T:N.T_B" "c", ⟨"member", [], [.text "b"]⟩] := by
    decide +kernel
  obtain ⟨hmerged, -⟩ := mergeDocumentation_firstMembers "A" hread
  rw [hkept] at hmerged
  exact ⟨hread, hkept, hmerged⟩

end ModuleLinker.Xml
