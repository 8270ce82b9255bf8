import ModuleLinker.Proofs.Image.Sidecar

namespace ModuleLinker

/-! # What attaching a sidecar accounts for

A sidecar of any bytes is either refused before anything is attached, or read as a list of entries. The
entries are then gathered, one for each method, and a walk over the types takes them off one by one;
what nobody took is reported. The walk takes an entry off for every method that has its token, with or
without a body, so what is reported are the entries of no method, and not those that no body got.

Where no two methods have the same token, both outcomes leave the module that `Sidecar.give` makes of it,
with the last entry of each method (`attach_of_decode`), and all that is said here is read off this.
-/

/-- A method of the module has a body, and its places are those of the entry. -/
def Module.Shows (m : Module) (e : Sidecar.Entry) : Prop :=
  ∃ x ∈ m.methods, x.token = e.method ∧ x.points? = some e.points

instance (m : Module) (e : Sidecar.Entry) : Decidable (m.Shows e) :=
  inferInstanceAs (Decidable (∃ x ∈ m.methods, x.token = e.method ∧ x.points? = some e.points))

namespace Sidecar

variable {m : Module} {data : Bytes} {entries : List Entry} {token : Token}

/-! ## Gathering entries -/

/-- An entry that is put in is found for its method, and hides those before it. -/
theorem find?_insert (entries : List Entry) (e : Entry) (token : Token) :
    (insert entries e).find? (fun other => other.method == token) =
      (e :: entries).find? fun other => other.method == token := by
  by_cases h : e.method = token
  · have hfound : (e.method == token) = true := beq_iff_eq.2 h
    rw [insert, List.find?_cons, List.find?_cons, hfound]
  · -- the entries that went are of another method
    have hkept : ∀ other : Entry,
        decide ((other.method != e.method) = true ∧ (other.method == token) = true) =
          (other.method == token) := by
      intro other
      by_cases hother : other.method = token
      · simp [hother, Ne.symm h]
      · simp [hother]
    rw [insert, List.find?_cons, List.find?_cons, beq_false_of_ne h, List.find?_filter]
    simp only [hkept]

/-- Of the entries that are put in, the last one of a method is found for it. -/
theorem find?_foldl_insert (entries acc : List Entry) (token : Token) :
    (entries.foldl insert acc).find? (fun e => e.method == token) =
      (entries.reverse ++ acc).find? fun e => e.method == token := by
  induction entries generalizing acc with
  | nil => rfl
  | cons e entries ih =>
    rw [List.foldl_cons, ih, List.reverse_cons, List.append_assoc, List.singleton_append,
      List.find?_append, List.find?_append, find?_insert]

theorem mem_map_method_iff (entries : List Entry) (token : Token) :
    token ∈ entries.map Entry.method ↔ (entries.find? fun e => e.method == token).isSome := by
  simp [List.find?_isSome]

/-- Gathering loses no method. -/
theorem mem_map_method_gathered (entries : List Entry) (token : Token) :
    token ∈ (entries.foldl insert []).map Entry.method ↔ token ∈ entries.map Entry.method := by
  rw [mem_map_method_iff, find?_foldl_insert, List.append_nil, ← mem_map_method_iff, List.map_reverse,
    List.mem_reverse]

theorem give_gathered (entries : List Entry) :
    give (entries.foldl insert []) = give entries.reverse := by
  funext x
  rw [give, give, find?_foldl_insert, List.append_nil]

/-! ## Entries of no method -/

/-- The token that is reported is the least one of the entries that are left. -/
theorem leastMethod?_eq_some_iff : leastMethod? entries = some token ↔
    token ∈ entries.map Entry.method ∧ ∀ other ∈ entries.map Entry.method, token.value ≤ other.value := by
  have hvalues : entries.map (fun e => e.method.value) = (entries.map Entry.method).map Token.value := by
    rw [List.map_map]
    rfl
  have hinjective : Function.Injective Token.value := fun a b h => by cases a; cases b; cases h; rfl
  rw [leastMethod?, hvalues, Option.map_eq_some_iff]
  constructor
  · rintro ⟨value, hleast, rfl⟩
    rw [List.min?_eq_some_iff] at hleast
    exact ⟨(List.mem_map_of_injective hinjective).1 hleast.1, fun other hother =>
      hleast.2 other.value (List.mem_map_of_mem hother)⟩
  · rintro ⟨hmem, hle⟩
    refine ⟨token.value, List.min?_eq_some_iff.2 ⟨List.mem_map_of_mem hmem, ?_⟩, rfl⟩
    exact List.forall_mem_map.2 hle

theorem leastMethod?_eq_none_iff : leastMethod? entries = none ↔ entries = [] := by
  simp [leastMethod?, List.min?_eq_none_iff]

/-- The fault for entries of no method: it names the least of their tokens. -/
def faultOf (entries : List Entry) : Option Fault :=
  (leastMethod? entries).map fun token => .malformed (.symbolsMethod token)

theorem faultOf_eq_none_iff : faultOf entries = none ↔ entries = [] := by
  rw [faultOf, Option.map_eq_none_iff, leastMethod?_eq_none_iff]

/-! ## What becomes of the module -/

/-- The entries that no method of the module takes. -/
def left (m : Module) (entries : List Entry) : List Entry :=
  without (m.methods.map Method.token) (entries.foldl insert [])

theorem left_eq_nil_iff : left m entries = [] ↔
    ∀ e ∈ entries, ∃ x ∈ m.methods, x.token = e.method := by
  have hgathered : left m entries = [] ↔
      ∀ token ∈ (entries.foldl insert []).map Entry.method, token ∈ m.methods.map Method.token := by
    simp [left, without, List.filter_eq_nil_iff]
  rw [hgathered]
  simp only [mem_map_method_gathered]
  rw [List.forall_mem_map]
  simp only [List.mem_map]

/-- Where no two methods have the same token, the sidecar is refused and changes nothing, or each method
with a body gets the places of the last entry for it. -/
theorem attach_of_decode (hnodup : (m.methods.map Method.token).Nodup)
    (h : (decode m).run data = .ok entries) :
    attach m data = (m.mapMethods (give entries.reverse), faultOf (left m entries)) := by
  have htypes := attachTypes_eq m.types hnodup (entries.foldl insert [])
  unfold attach
  rw [h]
  dsimp only
  rw [htypes, give_gathered]
  rfl

theorem attach_of_refused {fault : Fault} (h : (decode m).run data = .error fault) :
    attach m data = (m, some fault) := by
  unfold attach
  rw [h]

theorem withoutPoints_mapMethods_give (m : Module) (entries : List Entry) :
    (m.mapMethods (give entries)).withoutPoints = m.withoutPoints := by
  unfold Module.withoutPoints Module.mapMethods
  dsimp only
  rw [TypeDef.mapMethodsAll_mapMethodsAll, TypeDef.mapMethodsAll_congr]
  intro x _
  exact withoutPoints_give entries x

theorem token_mem_left_iff : token ∈ (left m entries).map Entry.method ↔
    token ∈ entries.map Entry.method ∧ token ∉ m.methods.map Method.token := by
  rw [← mem_map_method_gathered entries]
  simp only [left, without, List.mem_map, List.mem_filter, decide_eq_true_eq]
  constructor
  · rintro ⟨e, ⟨he, hnone⟩, rfl⟩
    exact ⟨⟨e, he, rfl⟩, hnone⟩
  · rintro ⟨⟨e, he, rfl⟩, hnone⟩
    exact ⟨e, ⟨he, hnone⟩, rfl⟩

/-- The least token of an entry that no method of the module has. -/
def LeastUnknown (m : Module) (entries : List Entry) (token : Token) : Prop :=
  (token ∈ entries.map Entry.method ∧ token ∉ m.methods.map Method.token) ∧
    ∀ other ∈ entries.map Entry.method, other ∉ m.methods.map Method.token → token.value ≤ other.value

theorem faultOf_left_iff :
    faultOf (left m entries) = some (.malformed (.symbolsMethod token)) ↔ LeastUnknown m entries token := by
  have hfault : faultOf (left m entries) = some (.malformed (.symbolsMethod token)) ↔
      leastMethod? (left m entries) = some token := by
    rw [faultOf, Option.map_eq_some_iff]
    simp
  rw [hfault, leastMethod?_eq_some_iff, LeastUnknown]
  simp only [token_mem_left_iff, and_imp]

/-! ## Entries that can be seen -/

/-- A method that is given places shows those of its entry if it has a body. -/
theorem points?_give_eq_some_iff {x : Method} {e : Entry} (hmethod : x.token = e.method)
    (he : e ∈ entries) {points : List SequencePoint} :
    (give entries x).points? = some points ↔ x.body.isSome ∧
      ∀ first ∈ entries.find? fun other => other.method == e.method, first.points = points := by
  obtain ⟨first, hfirst⟩ : ∃ first, entries.find? (fun other => other.method == e.method) = some first := by
    rw [← Option.isSome_iff_exists, ← mem_map_method_iff]
    exact List.mem_map_of_mem he
  unfold give
  rw [hmethod, hfirst]
  cases x.body <;> simp [Method.points?]

/-- All entries can be seen if and only if every entry has a method with a body, and the entries of one
method say the same. -/
theorem forall_shows_iff : (∀ e ∈ entries, (m.mapMethods (give entries.reverse)).Shows e) ↔
    (∀ e ∈ entries, ∃ x ∈ m.methods, x.token = e.method ∧ x.body.isSome) ∧
      ∀ e ∈ entries, ∀ e' ∈ entries, e.method = e'.method → e.points = e'.points := by
  have hshows (e : Entry) (he : e ∈ entries) : (m.mapMethods (give entries.reverse)).Shows e ↔
      (∃ x ∈ m.methods, x.token = e.method ∧ x.body.isSome) ∧
        ∀ first ∈ entries.reverse.find? fun other => other.method == e.method,
          first.points = e.points := by
    rw [Module.Shows, Module.methods_mapMethods]
    simp only [List.mem_map, exists_exists_and_eq_and, token_give]
    constructor
    · rintro ⟨x, hx, hmethod, hpoints⟩
      rw [points?_give_eq_some_iff hmethod (List.mem_reverse.2 he)] at hpoints
      exact ⟨⟨x, hx, hmethod, hpoints.1⟩, hpoints.2⟩
    · rintro ⟨⟨x, hx, hmethod, hbody⟩, hfirst⟩
      exact ⟨x, hx, hmethod, (points?_give_eq_some_iff hmethod (List.mem_reverse.2 he)).2 ⟨hbody, hfirst⟩⟩
  constructor
  · intro hall
    refine ⟨fun e he => ((hshows e he).1 (hall e he)).1, ?_⟩
    intro e he e' he' hsame
    -- both say what the last entry of the method says
    obtain ⟨first, hfirst⟩ := Option.isSome_iff_exists.1
      ((mem_map_method_iff entries.reverse e.method).1 (List.mem_map_of_mem (List.mem_reverse.2 he)))
    have h := ((hshows e he).1 (hall e he)).2 first hfirst
    have h' := ((hshows e' he').1 (hall e' he')).2 first (hsame ▸ hfirst)
    exact h.symm.trans h'
  · rintro ⟨hbodies, hagree⟩ e he
    refine (hshows e he).2 ⟨hbodies e he, fun first hfirst => ?_⟩
    have hmethod : first.method = e.method := by simpa using List.find?_some hfirst
    exact hagree first (List.mem_reverse.1 (List.mem_of_find?_eq_some hfirst)) e he hmethod

/-- Of any module whose methods have different tokens, and any bytes: nothing of the module changes but
places, and only a fault for an unknown method comes with such changes. The bytes are accepted exactly
if they are read as entries of methods of the module; then each method has the places of its last entry,
and all entries can be seen exactly if each is for a method with a body and those of one method agree. -/
theorem attach_accounts (hnodup : (m.methods.map Method.token).Nodup) (data : Bytes) :
    (attach m data).1.withoutPoints = m.withoutPoints ∧
    (∀ fault, (attach m data).2 = some fault →
      (∀ token, fault ≠ .malformed (.symbolsMethod token)) → (attach m data).1 = m) ∧
    ((attach m data).2 = none ↔ ∃ entries, (decode m).run data = .ok entries ∧
      ∀ e ∈ entries, ∃ x ∈ m.methods, x.token = e.method) ∧
    ∀ entries, (decode m).run data = .ok entries →
      (attach m data).1 = m.mapMethods (give entries.reverse) ∧
      (∀ token, (attach m data).2 = some (.malformed (.symbolsMethod token)) ↔
        LeastUnknown m entries token) ∧
      ((∀ e ∈ entries, (attach m data).1.Shows e) ↔
        (∀ e ∈ entries, ∃ x ∈ m.methods, x.token = e.method ∧ x.body.isSome) ∧
        ∀ e ∈ entries, ∀ e' ∈ entries, e.method = e'.method → e.points = e'.points) := by
  rcases hdecode : (decode m).run data with fault | entries
  · rw [attach_of_refused hdecode]
    refine ⟨rfl, fun _ _ _ => rfl, ?_, nofun⟩
    exact ⟨nofun, fun ⟨_, h, _⟩ => nomatch h⟩
  · rw [attach_of_decode hnodup hdecode]
    refine ⟨withoutPoints_mapMethods_give m _, ?_, ?_, ?_⟩
    · intro fault hfault hother
      obtain ⟨token, -, rfl⟩ := Option.map_eq_some_iff.1 hfault
      exact absurd rfl (hother token)
    · rw [faultOf_eq_none_iff, left_eq_nil_iff]
      constructor
      · intro hknown
        exact ⟨entries, rfl, hknown⟩
      · rintro ⟨_, h, hknown⟩
        cases h
        exact hknown
    · intro read hread
      cases hread
      exact ⟨rfl, fun token => faultOf_left_iff, forall_shows_iff⟩

/-- A module with a method `Run`, which has a body, and a method `Do`. -/
def draftModule (body : Option MethodBody) : Module :=
  let method (row : UInt32) (name : String) (body : Option MethodBody) : Method :=
    ⟨⟨0x06000000 + row⟩, name, ⟨0x96⟩, ⟨false, 0, .primitive .void, []⟩, body, []⟩
  let draft : TypeDef := ⟨⟨0x02000001⟩, "A", "Draft", ⟨1⟩, none, [], [], [],
    [method 1 "Run" (some (MethodBody.ofCode [(0x2A, .none)])), method 2 "Do" body], [], [], [], []⟩
  { Module.ofIdentity (.ofName "A" ⟨1, 0, 0, 0⟩) .dll with types := [draft] }

/-- The entry that places a method of the module on a line. -/
def draftEntry (row line : UInt32) : Entry :=
  ⟨⟨0x06000000 + row⟩, [⟨0, "Draft.cs", line, 1, line, 9⟩]⟩

/-- A sidecar of the module with these entries. -/
def draftData (entries : List Entry) : Bytes :=
  (Encoding.ofBytes magic ++ .u16 version ++ .ofBytes Mvid.zero.bytes ++ .list encodeEntry entries).bytes

/-- An entry may be there twice, but not with different lines. -/
theorem attach_accounts_twice :
    let m := draftModule (some (MethodBody.ofCode [(0x2A, .none)]))
    let entries := [draftEntry 2 7, draftEntry 1 3, draftEntry 2 7]
    (m.methods.map Method.token).Nodup ∧ (attach m (draftData entries)).2 = none ∧
      (∀ e ∈ entries, (attach m (draftData entries)).1.Shows e) ∧
      ¬∀ e ∈ draftEntry 2 8 :: entries, (attach m (draftData (draftEntry 2 8 :: entries))).1.Shows e := by
  intro m entries
  have hnodup : (m.methods.map Method.token).Nodup := by decide
  have hread : (decode m).run (draftData entries) = .ok entries := by decide +kernel
  have hread' : (decode m).run (draftData (draftEntry 2 8 :: entries)) = .ok (draftEntry 2 8 :: entries) := by
    decide +kernel
  obtain ⟨-, -, haccepted, hentries⟩ := attach_accounts hnodup (draftData entries)
  obtain ⟨-, -, -, hentries'⟩ := attach_accounts hnodup (draftData (draftEntry 2 8 :: entries))
  refine ⟨hnodup, haccepted.2 ⟨entries, hread, by decide⟩, (hentries _ hread).2.2.2 (by decide), ?_⟩
  intro hall
  exact absurd (((hentries' _ hread').2.2.1 hall).2) (by decide)

/-- Of an entry for a method without body nothing can be seen, and of two entries for a method the first
one cannot; in neither case the sidecar is refused. -/
theorem attach_passes_over_entries :
    let m := draftModule none
    (m.methods.map Method.token).Nodup ∧
      ((decode m).run (draftData [draftEntry 1 3, draftEntry 2 7]) = .ok [draftEntry 1 3, draftEntry 2 7] ∧
        (attach m (draftData [draftEntry 1 3, draftEntry 2 7])).2 = none ∧
        ¬(attach m (draftData [draftEntry 1 3, draftEntry 2 7])).1.Shows (draftEntry 2 7)) ∧
      (decode m).run (draftData [draftEntry 1 3, draftEntry 1 7]) = .ok [draftEntry 1 3, draftEntry 1 7] ∧
        (attach m (draftData [draftEntry 1 3, draftEntry 1 7])).2 = none ∧
        ¬(attach m (draftData [draftEntry 1 3, draftEntry 1 7])).1.Shows (draftEntry 1 3) := by
  decide +kernel

end Sidecar

end ModuleLinker
