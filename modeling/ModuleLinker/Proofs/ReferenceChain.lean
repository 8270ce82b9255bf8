import Mathlib.Data.List.Nodup
import Mathlib.Data.List.Perm.Subperm
import Mathlib.Order.WellFoundedSet
import ModuleLinker.Module.Lookup

namespace ModuleLinker

/-! # Chains of type references

A reference to a nested type names the reference to the type around it. Following these ends at a
reference to a top-level type, which is found in another module or in the module itself. Where no two
references have one token, a chain cannot be longer than the table, so that looking it up step by step
with the length of the table as a bound finds its end.

A chain can also break off at a token that no row has. Where no reference encloses itself by way of others,
these are all the chains that there are, and every search for a name comes to an end. Whatever the table, a
search that comes to an end at all does so within one step for each row and one more.
-/

/-- There are no more elements of a list than it is long. -/
theorem le_length_of_injective {xs : List α} {n : Nat} {f : Fin n → α} (hinjective : Function.Injective f)
    (hmem : ∀ k, f k ∈ xs) : n ≤ xs.length := by
  have hsubset : (List.finRange n).map f ⊆ xs := by
    intro x hx
    obtain ⟨k, -, rfl⟩ := List.mem_map.1 hx
    exact hmem k
  have hdistinct := (List.nodup_finRange n).map hinjective
  simpa using (hdistinct.subperm hsubset).length_le

/-- The chain of enclosing references that starts at a row of a table: its length, the index of the
module that it leads to, if it does not end in the module itself, and the full name of the type. -/
inductive Chain (rows : List TypeRef) : Nat → TypeRef → Option Nat → String → Prop
  | reference {row : TypeRef} {index : UInt32} (hscope : row.scope = .reference index) :
    Chain rows 1 row (some index.toNat) (qualifiedName row.namespaceName row.name)
  | here {row : TypeRef} (hscope : row.scope = .here) :
    Chain rows 1 row none (qualifiedName row.namespaceName row.name)
  /-- A reference that encloses itself means a top-level type of the module. -/
  | itself {row : TypeRef} (hscope : row.scope = .enclosing row.token) :
    Chain rows 1 row none (qualifiedName row.namespaceName row.name)
  | nested {row outer : TypeRef} {n : Nat} {root : Option Nat} {name : String}
      (hscope : row.scope = .enclosing outer.token) (hne : outer.token ≠ row.token)
      (houter : outer ∈ rows) (h : Chain rows n outer root name) :
    Chain rows (n + 1) row root s!"{name}/{row.name}"

namespace Chain

variable {rows rows' : List TypeRef} {n n' : Nat} {row : TypeRef} {root root' : Option Nat}
  {name name' : String}

/-- More rows leave the chains that are there as they are. -/
theorem mono (hrows : rows ⊆ rows') (h : Chain rows n row root name) : Chain rows' n row root name := by
  induction h with
  | reference hscope => exact .reference hscope
  | here hscope => exact .here hscope
  | itself hscope => exact .itself hscope
  | nested hscope hne houter _ ih => exact .nested hscope hne (hrows houter) ih

theorem pos (h : Chain rows n row root name) : 0 < n := by
  cases h <;> omega

/-- A row starts one chain only. -/
theorem unique (hnodup : (rows.map TypeRef.token).Nodup) (h : Chain rows n row root name)
    (h' : Chain rows n' row root' name') : n = n' ∧ root = root' ∧ name = name' := by
  induction h generalizing n' root' name' with
  | reference hscope =>
    cases h' with
    | reference hscope' =>
      rw [hscope, Scope.reference.injEq] at hscope'
      exact ⟨rfl, by rw [hscope'], rfl⟩
    | here hscope' | itself hscope' | nested hscope' => exact nomatch hscope.symm.trans hscope'
  | here hscope =>
    cases h' with
    | here => exact ⟨rfl, rfl, rfl⟩
    | reference hscope' | itself hscope' | nested hscope' => exact nomatch hscope.symm.trans hscope'
  | itself hscope =>
    cases h' with
    | itself => exact ⟨rfl, rfl, rfl⟩
    | reference hscope' | here hscope' => exact nomatch hscope.symm.trans hscope'
    | nested hscope' hne =>
      exact absurd (Scope.enclosing.inj (hscope.symm.trans hscope')).symm hne
  | nested hscope hne houter _ ih =>
    cases h' with
    | reference hscope' | here hscope' => exact nomatch hscope.symm.trans hscope'
    | itself hscope' => exact absurd (Scope.enclosing.inj (hscope.symm.trans hscope')) hne
    | nested hscope' hne' houter' h' =>
      have htoken := Scope.enclosing.inj (hscope.symm.trans hscope')
      obtain rfl := List.inj_on_of_nodup_map hnodup houter houter' htoken
      obtain ⟨rfl, rfl, rfl⟩ := ih h'
      exact ⟨rfl, rfl, rfl⟩

/-- On a chain there are rows with chains of all smaller lengths. -/
theorem exists_mem (hrow : row ∈ rows) (h : Chain rows n row root name) {k : Nat} (hpos : 0 < k)
    (hk : k ≤ n) : ∃ row' ∈ rows, ∃ name', Chain rows k row' root name' := by
  induction h with
  | reference hscope =>
    obtain rfl : k = 1 := by omega
    exact ⟨_, hrow, _, .reference hscope⟩
  | here hscope =>
    obtain rfl : k = 1 := by omega
    exact ⟨_, hrow, _, .here hscope⟩
  | itself hscope =>
    obtain rfl : k = 1 := by omega
    exact ⟨_, hrow, _, .itself hscope⟩
  | nested hscope hne houter h ih =>
    rcases Nat.lt_or_eq_of_le hk with hlt | rfl
    · exact ih houter (Nat.le_of_lt_succ hlt)
    · exact ⟨_, hrow, _, .nested hscope hne houter h⟩

/-- A chain is no longer than the table. -/
theorem length_le (hnodup : (rows.map TypeRef.token).Nodup) (hrow : row ∈ rows)
    (h : Chain rows n row root name) : n ≤ rows.length := by
  -- one row for each length, all different since a row starts one chain only
  have hrows : ∀ k : Fin n, ∃ row' ∈ rows, ∃ name', Chain rows (k + 1) row' root name' :=
    fun k => h.exists_mem hrow (Nat.succ_pos k) k.isLt
  choose rowAt hmem nameAt hchain using hrows
  have hinjective : Function.Injective rowAt := by
    intro k k' heq
    have hlengths := ((hchain k).unique hnodup (heq ▸ hchain k')).1
    exact Fin.ext (Nat.succ.inj hlengths)
  exact le_length_of_injective hinjective hmem

end Chain

/-! ## Tables without circles -/

/-- A chain that breaks off: a reference on it is nested in what no row of the table stands for. -/
inductive Breaks (rows : List TypeRef) : TypeRef → Prop
  | missing {row : TypeRef} {token : Token} (hscope : row.scope = .enclosing token)
    (hmissing : token ∉ rows.map TypeRef.token) : Breaks rows row
  | nested {row outer : TypeRef} (hscope : row.scope = .enclosing outer.token)
    (hne : outer.token ≠ row.token) (houter : outer ∈ rows) (h : Breaks rows outer) : Breaks rows row

/-- One row of a table is the enclosing reference of another one. -/
structure Encloses (rows : List TypeRef) (outer row : TypeRef) : Prop where
  outer_mem : outer ∈ rows
  mem : row ∈ rows
  scope : row.scope = .enclosing outer.token
  ne : outer.token ≠ row.token

/-- No reference encloses itself by way of others. One that encloses itself at once is the end of a chain. -/
def Acyclic (rows : List TypeRef) : Prop :=
  ∀ row, ¬ Relation.TransGen (Encloses rows) row row

namespace Acyclic

variable {rows : List TypeRef} {row : TypeRef}

/-- A table has no circles where each row has a higher level than the one that encloses it. -/
theorem of_level (level : TypeRef → Nat)
    (h : ∀ outer row, Encloses rows outer row → level outer < level row) : Acyclic rows := by
  intro row hcircle
  have hlevels : Relation.TransGen (· < ·) (level row) (level row) := hcircle.lift level h
  rw [Relation.transGen_eq_self] at hlevels
  exact Nat.lt_irrefl _ hlevels

/-- The rows can be gone through from the enclosing ones to the nested ones, as there are only finitely many. -/
theorem wellFoundedOn (h : Acyclic rows) :
    {row | row ∈ rows}.WellFoundedOn (Relation.TransGen (Encloses rows)) := by
  have : IsStrictOrder TypeRef (Relation.TransGen (Encloses rows)) := { irrefl := h }
  exact rows.finite_toSet.wellFoundedOn

/-- Every row starts a chain, or one that breaks off. -/
theorem chain_or_breaks (h : Acyclic rows) (hrow : row ∈ rows) :
    (∃ n root name, Chain rows n row root name) ∨ Breaks rows row := by
  -- from the outermost rows inwards
  refine h.wellFoundedOn.induction hrow
    (P := fun row => (∃ n root name, Chain rows n row root name) ∨ Breaks rows row) ?_
  intro row hrow ih
  rcases hscope : row.scope with index | token | _
  · exact .inl ⟨1, _, _, .reference hscope⟩
  · by_cases hmem : token ∈ rows.map TypeRef.token
    · obtain ⟨outer, houter, rfl⟩ := List.mem_map.1 hmem
      by_cases hself : outer.token = row.token
      · exact .inl ⟨1, _, _, .itself (hself ▸ hscope)⟩
      · rcases ih outer houter (.single ⟨houter, hrow, hscope, hself⟩) with ⟨n, root, name, hchain⟩ | hbreaks
        · exact .inl ⟨n + 1, root, _, .nested hscope hself houter hchain⟩
        · exact .inr (.nested hscope hself houter hbreaks)
    · exact .inr (.missing hscope hmem)
  · exact .inl ⟨1, _, _, .here hscope⟩

end Acyclic

/-! ## Looking chains up -/

/-- Where no two elements have one key, an element is what is found under its key. -/
theorem find?_key_of_mem [BEq κ] [LawfulBEq κ] {key : α → κ} {xs : List α} (hnodup : (xs.map key).Nodup)
    {x : α} (h : x ∈ xs) : xs.find? (fun y => key y == key x) = some x := by
  rcases hfind : xs.find? (fun y => key y == key x) with _ | y
  · exact absurd (List.find?_eq_none.1 hfind x h) (by simp)
  · have hkey : key y = key x := by simpa using List.find?_some hfind
    rw [List.inj_on_of_nodup_map hnodup (List.mem_of_find?_eq_some hfind) h hkey]

namespace Module

variable {m : Module} {n : Nat} {row : TypeRef} {root : Option Nat} {name : String}

theorem typeRef?_of_mem (hnodup : (m.typeRefs.map TypeRef.token).Nodup) (h : row ∈ m.typeRefs) :
    m.typeRef? row.token = some row :=
  find?_key_of_mem hnodup h

theorem typeRef?_of_not_mem {token : Token} (h : token ∉ m.typeRefs.map TypeRef.token) :
    m.typeRef? token = none := by
  rw [typeRef?, List.find?_eq_none]
  intro row hrow heq
  exact h (List.mem_map.2 ⟨row, hrow, by simpa using heq⟩)

/-! ### Searches for names -/

theorem typeRefNameWithin_of_none {token : Token} (h : m.typeRef? token = none) (steps : Nat) :
    m.typeRefNameWithin (steps + 1) token = some none := by
  rw [typeRefNameWithin, h]

/-- The search goes on where a reference is enclosed by another one, and ends at every other reference. -/
theorem typeRefNameWithin_of_enclosing {token outer : Token} (hrow : m.typeRef? token = some row)
    (hscope : row.scope = .enclosing outer) (hne : outer ≠ token) (steps : Nat) :
    m.typeRefNameWithin (steps + 1) token =
      (m.typeRefNameWithin steps outer).map (·.map fun outerName => s!"{outerName}/{row.name}") := by
  simp only [typeRefNameWithin, hrow, hscope, if_neg hne]

theorem typeRefNameWithin_of_outermost {token : Token} (hrow : m.typeRef? token = some row)
    (h : ∀ outer, row.scope = .enclosing outer → outer = token) (steps : Nat) :
    m.typeRefNameWithin (steps + 1) token = some (some (qualifiedName row.namespaceName row.name)) := by
  rcases hscope : row.scope with index | outer | _
  · simp only [typeRefNameWithin, hrow, hscope]
  · simp only [typeRefNameWithin, hrow, hscope, if_pos (h outer hscope)]
  · simp only [typeRefNameWithin, hrow, hscope]

/-- Another reference encloses a row, or none does. -/
theorem outermost_or_enclosed (row : TypeRef) (token : Token) :
    (∀ outer, row.scope = .enclosing outer → outer = token) ∨
      ∃ outer, row.scope = .enclosing outer ∧ outer ≠ token := by
  by_cases h : ∃ outer, row.scope = .enclosing outer ∧ outer ≠ token
  · exact .inr h
  · left
    intro outer hscope
    by_contra hne
    exact h ⟨outer, hscope, hne⟩

/-- A search ends at once, or it goes on at the reference around. -/
theorem ends_or_goes_on (m : Module) (token : Token) :
    (∃ result, ∀ steps, m.typeRefNameWithin (steps + 1) token = some result) ∨
      ∃ row outer, m.typeRef? token = some row ∧ row.scope = .enclosing outer ∧ outer ≠ token := by
  rcases hrow : m.typeRef? token with _ | row
  · exact .inl ⟨none, typeRefNameWithin_of_none hrow⟩
  · rcases outermost_or_enclosed row token with houtermost | ⟨outer, hscope, hne⟩
    · exact .inl ⟨_, typeRefNameWithin_of_outermost hrow houtermost⟩
    · exact .inr ⟨row, outer, rfl, hscope, hne⟩

/-- A search with a result has the same one with one step more. -/
theorem typeRefNameWithin_succ {steps : Nat} {token : Token} {result : Option String}
    (h : m.typeRefNameWithin steps token = some result) :
    m.typeRefNameWithin (steps + 1) token = some result := by
  induction steps generalizing token result with
  | zero => exact nomatch h
  | succ steps ih =>
    rcases m.ends_or_goes_on token with ⟨result', hends⟩ | ⟨row, outer, hrow, hscope, hne⟩
    · rwa [hends] at h ⊢
    · rw [typeRefNameWithin_of_enclosing hrow hscope hne] at h ⊢
      obtain ⟨outerName, houter, rfl⟩ := Option.map_eq_some_iff.1 h
      rw [ih houter]
      rfl

/-- More steps leave the result of a search as it is. -/
theorem typeRefNameWithin_mono {steps steps' : Nat} {token : Token} {result : Option String}
    (h : m.typeRefNameWithin steps token = some result) (hle : steps ≤ steps') :
    m.typeRefNameWithin steps' token = some result := by
  induction steps', hle using Nat.le_induction with
  | base => exact h
  | succ steps' _ ih => exact typeRefNameWithin_succ ih

/-- On the way of a search there are rows whose own searches take each smaller number of steps. -/
theorem exists_row_of_steps {n : Nat} {token : Token} (hends : (m.typeRefNameWithin (n + 1) token).isSome)
    (hleast : m.typeRefNameWithin n token = none) {k : Nat} (hpos : 0 < k) (hk : k ≤ n) :
    ∃ row ∈ m.typeRefs, (m.typeRefNameWithin (k + 1) row.token).isSome ∧
      m.typeRefNameWithin k row.token = none := by
  induction n generalizing token with
  | zero => omega
  | succ n ih =>
    rcases m.ends_or_goes_on token with ⟨result, hall⟩ | ⟨row, outer, hrow, hscope, hne⟩
    · rw [hall] at hleast
      exact nomatch hleast
    · have htoken : row.token = token := by simpa using List.find?_some hrow
      rcases Nat.lt_or_eq_of_le hk with hlt | rfl
      · rw [typeRefNameWithin_of_enclosing hrow hscope hne] at hends hleast
        exact ih (by simpa using hends) (by simpa using hleast) (Nat.le_of_lt_succ hlt)
      · exact ⟨row, List.mem_of_find?_eq_some hrow, htoken ▸ hends, htoken ▸ hleast⟩

/-- A search takes no more than one step for each row and one more. -/
theorem le_length_of_steps {n : Nat} {token : Token} (hends : (m.typeRefNameWithin (n + 1) token).isSome)
    (hleast : m.typeRefNameWithin n token = none) : n ≤ m.typeRefs.length := by
  -- the rows on the way differ in the numbers of steps that their own searches take
  have hrows : ∀ k : Fin n, ∃ row ∈ m.typeRefs, (m.typeRefNameWithin (k + 1 + 1) row.token).isSome ∧
      m.typeRefNameWithin (k + 1) row.token = none :=
    fun k => exists_row_of_steps hends hleast (Nat.succ_pos k) k.isLt
  choose rowAt hmem hat hnot using hrows
  have hle : ∀ k k' : Fin n, rowAt k = rowAt k' → k'.val ≤ k.val := by
    intro k k' heq
    by_contra hlt
    obtain ⟨result, hresult⟩ := Option.isSome_iff_exists.1 (hat k)
    have hearly := typeRefNameWithin_mono hresult (show k.val + 1 + 1 ≤ k'.val + 1 by omega)
    rw [heq, hnot k'] at hearly
    exact nomatch hearly
  have hinjective : Function.Injective rowAt :=
    fun k k' heq => Fin.ext (Nat.le_antisymm (hle k' k heq.symm) (hle k k' heq))
  exact le_length_of_injective hinjective hmem

/-- Where a search comes to an end, it does so within the bound. -/
theorem typeRefNameWithin_length {steps : Nat} {token : Token} {result : Option String}
    (h : m.typeRefNameWithin steps token = some result) :
    m.typeRefNameWithin (m.typeRefs.length + 1) token = some result := by
  induction steps with
  | zero => exact nomatch h
  | succ steps ih =>
    rcases hbefore : m.typeRefNameWithin steps token with _ | result'
    · have hle := le_length_of_steps (by rw [h]; rfl) hbefore
      exact typeRefNameWithin_mono h (Nat.succ_le_succ hle)
    · have hsame := (typeRefNameWithin_succ hbefore).symm.trans h
      exact ih (hbefore.trans hsame)

/-- The name of a reference is the result of the search for it, whatever number of steps it takes. -/
theorem typeRefName?_of_within {steps : Nat} {token : Token} {result : Option String}
    (h : m.typeRefNameWithin steps token = some result) : m.typeRefName? token = result := by
  rw [typeRefName?, typeRefNameWithin_length h]
  rfl

theorem typeRefName?_of_not_mem {token : Token} (h : token ∉ m.typeRefs.map TypeRef.token) :
    m.typeRefName? token = none :=
  typeRefName?_of_within (typeRefNameWithin_of_none (typeRef?_of_not_mem h) 0)

/-- Where no reference encloses itself by way of others, all searches come to an end. -/
theorem namesEnd_of_acyclic (h : Acyclic m.typeRefs) : m.NamesEnd := by
  have hrows : ∀ row ∈ m.typeRefs, m.typeRef? row.token = some row →
      ∃ steps, (m.typeRefNameWithin steps row.token).isSome := by
    intro row hrow
    -- from the outermost rows inwards
    refine h.wellFoundedOn.induction hrow (P := fun row => m.typeRef? row.token = some row →
      ∃ steps, (m.typeRefNameWithin steps row.token).isSome) ?_
    intro row hrow ih hfound
    rcases m.ends_or_goes_on row.token with ⟨result, hends⟩ | ⟨row', outer, hrow', hscope, hne⟩
    · exact ⟨1, by rw [hends]; rfl⟩
    · obtain rfl := Option.some.inj (hfound.symm.trans hrow')
      rcases houter : m.typeRef? outer with _ | outerRow
      · exact ⟨2, by rw [typeRefNameWithin_of_enclosing hfound hscope hne, typeRefNameWithin_of_none houter]; rfl⟩
      · obtain rfl : outerRow.token = outer := by simpa using List.find?_some houter
        have hmem := List.mem_of_find?_eq_some houter
        obtain ⟨steps, hsteps⟩ := ih outerRow hmem (.single ⟨hmem, hrow, hscope, hne⟩) houter
        exact ⟨steps + 1, by rw [typeRefNameWithin_of_enclosing hfound hscope hne]; simpa using hsteps⟩
  intro token
  rcases hrow : m.typeRef? token with _ | row
  · exact ⟨1, by rw [typeRefNameWithin_of_none hrow]; rfl⟩
  · obtain rfl : row.token = token := by simpa using List.find?_some hrow
    exact hrows row (List.mem_of_find?_eq_some hrow) hrow

/-- Where no two references have one token, all searches come to an end only if none goes in a circle. -/
theorem namesEnd_iff_acyclic (hnodup : (m.typeRefs.map TypeRef.token).Nodup) :
    m.NamesEnd ↔ Acyclic m.typeRefs := by
  refine ⟨fun h => ?_, namesEnd_of_acyclic⟩
  -- the search for a row takes more steps than that for the row around it
  refine .of_level (fun row => Nat.find (h row.token)) fun outer row henclosing => ?_
  have hends := Nat.find_spec (h row.token)
  obtain ⟨steps, hsteps⟩ : ∃ k, Nat.find (h row.token) = k + 1 := by
    refine Nat.exists_eq_succ_of_ne_zero fun hzero => ?_
    rw [hzero] at hends
    exact nomatch hends
  rw [hsteps, typeRefNameWithin_of_enclosing (typeRef?_of_mem hnodup henclosing.mem) henclosing.scope henclosing.ne,
    Option.isSome_map] at hends
  rw [hsteps]
  exact Nat.lt_succ_of_le (Nat.find_min' (h outer.token) hends)

/-- It is enough if the searches for the rows come to an end within the bound. -/
theorem namesEnd_iff : m.NamesEnd ↔ ∀ row ∈ m.typeRefs,
    (m.typeRefNameWithin (m.typeRefs.length + 1) row.token).isSome := by
  constructor
  · intro h row _
    obtain ⟨steps, hsteps⟩ := h row.token
    obtain ⟨result, hresult⟩ := Option.isSome_iff_exists.1 hsteps
    rw [typeRefNameWithin_length hresult]
    rfl
  · intro h token
    rcases hrow : m.typeRef? token with _ | row
    · exact ⟨1, by rw [typeRefNameWithin_of_none hrow]; rfl⟩
    · obtain rfl : row.token = token := by simpa using List.find?_some hrow
      exact ⟨_, h row (List.mem_of_find?_eq_some hrow)⟩

instance (m : Module) : Decidable m.NamesEnd := decidable_of_iff _ namesEnd_iff.symm

/-- Two references that enclose each other. -/
example : ¬ Module.NamesEnd { Module.ofIdentity (.ofName "circle" ⟨1, 0, 0, 0⟩) .dll with
    typeRefs := [⟨⟨0x01000001⟩, .enclosing ⟨0x01000002⟩, "", "A"⟩,
      ⟨⟨0x01000002⟩, .enclosing ⟨0x01000001⟩, "", "B"⟩] } := by
  decide

/-! ### Names and targets of chains -/

theorem typeRefNameWithin_of_chain (hnodup : (m.typeRefs.map TypeRef.token).Nodup)
    (hrow : row ∈ m.typeRefs) (h : Chain m.typeRefs n row root name) :
    m.typeRefNameWithin n row.token = some (some name) := by
  induction h with
  | nested hscope hne houter h ih =>
    rw [typeRefNameWithin_of_enclosing (typeRef?_of_mem hnodup hrow) hscope hne, ih houter]
    rfl
  | reference hscope | here hscope =>
    exact typeRefNameWithin_of_outermost (typeRef?_of_mem hnodup hrow) (by simp [hscope]) 0
  | itself hscope =>
    exact typeRefNameWithin_of_outermost (typeRef?_of_mem hnodup hrow) (by simp [hscope]) 0

/-- A reference has the full name that its chain spells. -/
theorem typeRefName?_of_chain (hnodup : (m.typeRefs.map TypeRef.token).Nodup) (hrow : row ∈ m.typeRefs)
    (h : Chain m.typeRefs n row root name) : m.typeRefName? row.token = some name :=
  typeRefName?_of_within (typeRefNameWithin_of_chain hnodup hrow h)

/-- A reference that encloses itself leads nowhere. -/
theorem targetWithin_itself (hnodup : (m.typeRefs.map TypeRef.token).Nodup) (hrow : row ∈ m.typeRefs)
    (hscope : row.scope = .enclosing row.token) (steps : Nat) : m.targetWithin steps row = none := by
  induction steps with
  | zero => rfl
  | succ steps ih => simp [targetWithin, hscope, typeRef?_of_mem hnodup hrow, ih]

theorem targetWithin_of_chain (hnodup : (m.typeRefs.map TypeRef.token).Nodup) (hrow : row ∈ m.typeRefs)
    (h : Chain m.typeRefs n row root name) {steps : Nat} (hsteps : n ≤ steps) :
    m.targetWithin steps row = root.bind (m.references[·]?) := by
  induction h generalizing steps with
  | itself hscope => exact targetWithin_itself hnodup hrow hscope steps
  | nested hscope hne houter h ih =>
    obtain ⟨steps, rfl⟩ : ∃ k, steps = k + 1 := ⟨steps - 1, by omega⟩
    have htarget := ih houter (Nat.le_of_succ_le_succ hsteps)
    simp [targetWithin, hscope, typeRef?_of_mem hnodup houter, htarget]
  | reference hscope | here hscope =>
    obtain ⟨steps, rfl⟩ : ∃ k, steps = k + 1 := ⟨steps - 1, by omega⟩
    simp [targetWithin, hscope]

/-- A reference leads to the module that its chain ends at. -/
theorem typeRefTarget?_of_chain (hnodup : (m.typeRefs.map TypeRef.token).Nodup)
    (hrow : row ∈ m.typeRefs) (h : Chain m.typeRefs n row root name) :
    m.typeRefTarget? row.token = root.bind (m.references[·]?) := by
  rw [typeRefTarget?, typeRef?_of_mem hnodup hrow]
  exact targetWithin_of_chain hnodup hrow h (h.length_le hnodup hrow)

/-- A reference whose chain breaks off has no full name. -/
theorem typeRefName?_of_breaks (hnodup : (m.typeRefs.map TypeRef.token).Nodup) (hrow : row ∈ m.typeRefs)
    (h : Breaks m.typeRefs row) : m.typeRefName? row.token = none := by
  suffices ∃ steps, m.typeRefNameWithin steps row.token = some none by
    obtain ⟨steps, hsteps⟩ := this
    exact typeRefName?_of_within hsteps
  induction h with
  | @missing row token hscope hmissing =>
    have hne : token ≠ row.token := fun heq => hmissing (heq ▸ List.mem_map_of_mem hrow)
    refine ⟨2, ?_⟩
    rw [typeRefNameWithin_of_enclosing (typeRef?_of_mem hnodup hrow) hscope hne,
      typeRefNameWithin_of_none (typeRef?_of_not_mem hmissing)]
    rfl
  | nested hscope hne houter _ ih =>
    obtain ⟨steps, hsteps⟩ := ih houter
    refine ⟨steps + 1, ?_⟩
    rw [typeRefNameWithin_of_enclosing (typeRef?_of_mem hnodup hrow) hscope hne, hsteps]
    rfl

/-- A reference whose chain breaks off leads nowhere. -/
theorem typeRefTarget?_of_breaks (hnodup : (m.typeRefs.map TypeRef.token).Nodup) (hrow : row ∈ m.typeRefs)
    (h : Breaks m.typeRefs row) : m.typeRefTarget? row.token = none := by
  rw [typeRefTarget?, typeRef?_of_mem hnodup hrow, Option.bind_some]
  -- no number of steps is enough
  generalize m.typeRefs.length = steps
  induction h generalizing steps with
  | missing hscope hmissing =>
    cases steps with
    | zero => rfl
    | succ steps => simp [targetWithin, hscope, typeRef?_of_not_mem hmissing]
  | nested hscope _ houter _ ih =>
    cases steps with
    | zero => rfl
    | succ steps => simp [targetWithin, hscope, typeRef?_of_mem hnodup houter, ih houter]

theorem exists_chain_within {steps : Nat} {token : Token}
    (h : m.typeRefNameWithin steps token = some (some name)) :
    ∃ row, m.typeRef? token = some row ∧ ∃ n root, Chain m.typeRefs n row root name := by
  induction steps generalizing token name with
  | zero => exact nomatch h
  | succ steps ih =>
    rcases hrow : m.typeRef? token with _ | row
    · rw [typeRefNameWithin_of_none hrow] at h
      exact nomatch h
    have htoken : row.token = token := by simpa using List.find?_some hrow
    refine ⟨row, rfl, ?_⟩
    rcases outermost_or_enclosed row token with houtermost | ⟨outer, hscope, hne⟩
    · rw [typeRefNameWithin_of_outermost hrow houtermost] at h
      obtain rfl := Option.some.inj (Option.some.inj h)
      rcases hscope : row.scope with index | outer | _
      · exact ⟨1, _, .reference hscope⟩
      · have hself : outer = row.token := (houtermost outer hscope).trans htoken.symm
        exact ⟨1, none, .itself (hself ▸ hscope)⟩
      · exact ⟨1, none, .here hscope⟩
    · rw [typeRefNameWithin_of_enclosing hrow hscope hne] at h
      obtain ⟨result, hresult, h⟩ := Option.map_eq_some_iff.1 h
      obtain ⟨outerName, rfl, rfl⟩ := Option.map_eq_some_iff.1 h
      obtain ⟨row', hrow', n, root, hchain⟩ := ih hresult
      obtain rfl : row'.token = outer := by simpa using List.find?_some hrow'
      have houter := List.mem_of_find?_eq_some hrow'
      exact ⟨n + 1, root, .nested hscope (htoken ▸ hne) houter hchain⟩

/-- A reference with a full name starts a chain. -/
theorem exists_chain {token : Token} (h : m.typeRefName? token = some name) :
    ∃ row, m.typeRef? token = some row ∧ ∃ n root, Chain m.typeRefs n row root name :=
  exists_chain_within (Option.join_eq_some_iff.1 h)

end Module

end ModuleLinker
