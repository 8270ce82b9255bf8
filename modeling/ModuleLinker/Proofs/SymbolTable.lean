import Mathlib.Data.List.Induction
import ModuleLinker.Proofs.ModuleSet
import ModuleLinker.Proofs.Repetition
import ModuleLinker.SymbolTable

namespace ModuleLinker

/-! # Symbols as groups of declarations

The symbols of a list of declarations sort it by name: no name has two symbols, every declaration is a
contributor of the symbol of its name and of no other, and both the symbols and the contributors of
each stand in the order of the list.
-/

namespace Symbol

/-- A further declaration goes to some symbol, and nothing else changes. -/
theorem claim_perm (d : Declaration) (symbols : List Symbol) :
    ((claim d symbols).flatMap contributors).Perm (symbols.flatMap contributors ++ [d]) := by
  induction symbols with
  | nil => exact List.Perm.refl _
  | cons s symbols ih =>
    rw [claim]
    split
    case isTrue =>
      have hlast : ((s.contributors ++ [d]) ++ symbols.flatMap contributors).Perm
          (s.contributors ++ symbols.flatMap contributors ++ [d]) := by
        rw [List.append_assoc, List.append_assoc]
        exact List.perm_append_comm.append_left _
      exact hlast
    case isFalse =>
      rw [List.flatMap_cons, List.flatMap_cons, List.append_assoc]
      exact ih.append_left _

/-- Every declaration is a contributor once. -/
theorem ofDeclarations_perm (ds : List Declaration) :
    ((ofDeclarations ds).flatMap contributors).Perm ds := by
  induction ds using List.reverseRecOn with
  | nil => exact List.Perm.refl _
  | append_singleton ds d ih =>
    rw [ofDeclarations, List.foldl_append]
    exact (claim_perm d _).trans (ih.append_right [d])

/-- What a further declaration makes of a symbol. -/
def join (d : Declaration) (s : Symbol) : Symbol :=
  if s.name = d.name then { s with others := s.others ++ [d] } else s

theorem name_join (d : Declaration) (s : Symbol) : (s.join d).name = s.name := by
  unfold join
  split <;> rfl

theorem first_join (d : Declaration) (s : Symbol) : (s.join d).first = s.first := by
  unfold join
  split <;> rfl

theorem map_join_eq_self {d : Declaration} {symbols : List Symbol}
    (h : d.name ∉ symbols.map name) : symbols.map (join d) = symbols := by
  conv_rhs => rw [← List.map_id symbols]
  refine List.map_congr_left fun s hs => ?_
  have hne : s.name ≠ d.name := fun heq => h (heq ▸ List.mem_map_of_mem hs)
  rw [join, if_neg hne, id]

/-- Where no name has two symbols, a declaration joins the symbol of its name, or gets one of its own
behind the others. -/
theorem claim_eq {d : Declaration} {symbols : List Symbol} (hnodup : (symbols.map name).Nodup) :
    claim d symbols =
      if d.name ∈ symbols.map name then symbols.map (join d) else symbols ++ [⟨d.name, d, []⟩] := by
  induction symbols with
  | nil => rfl
  | cons s symbols ih =>
    rw [List.map_cons, List.nodup_cons] at hnodup
    rw [claim, List.map_cons]
    by_cases hs : s.name = d.name
    · have hrest := map_join_eq_self (hs ▸ hnodup.1)
      rw [if_pos hs, if_pos (hs ▸ List.mem_cons_self), List.map_cons, hrest, join, if_pos hs]
    · have hmem : d.name ∈ s.name :: symbols.map name ↔ d.name ∈ symbols.map name := by
        rw [List.mem_cons]
        exact ⟨fun h => h.resolve_left fun heq => hs heq.symm, .inr⟩
      rw [if_neg hs, ih hnodup.2]
      simp only [hmem]
      split
      · rw [List.map_cons, join, if_neg hs]
      · rfl

/-- What the symbols of declarations are: the first declaration with each name starts a symbol of that
name, and the contributors of a symbol are the declarations with its name. -/
structure Groups (symbols : List Symbol) (ds : List Declaration) : Prop where
  contributors : ∀ s ∈ symbols, s.contributors = ds.filter (·.name == s.name)
  firsts : symbols.map first = firsts Declaration.name [] ds

namespace Groups

variable {symbols : List Symbol} {ds : List Declaration}

/-- A contributor has the name of its symbol. -/
theorem name_eq (h : Groups symbols ds) {s : Symbol} (hs : s ∈ symbols) {d : Declaration}
    (hd : d ∈ s.contributors) : d.name = s.name := by
  rw [h.contributors s hs] at hd
  exact beq_iff_eq.1 (List.mem_filter.1 hd).2

theorem names_eq (h : Groups symbols ds) :
    symbols.map name = (ModuleLinker.firsts Declaration.name [] ds).map Declaration.name := by
  rw [← h.firsts, List.map_map]
  exact List.map_congr_left fun s hs => (h.name_eq hs List.mem_cons_self).symm

theorem nodup_names (h : Groups symbols ds) : (symbols.map name).Nodup := by
  rw [h.names_eq]
  exact (nodup_map_firsts Declaration.name [] ds).1

/-- Symbols of one name are the same. -/
theorem eq_of_name_eq (h : Groups symbols ds) {s s' : Symbol} (hs : s ∈ symbols) (hs' : s' ∈ symbols)
    (hname : s.name = s'.name) : s = s' :=
  List.inj_on_of_nodup_map h.nodup_names hs hs' hname

/-- Every declaration has a symbol of its name. -/
theorem exists_symbol (h : Groups symbols ds) {d : Declaration} (hd : d ∈ ds) :
    ∃ s ∈ symbols, s.name = d.name ∧ d ∈ s.contributors := by
  have hnew : d.name ∉ ([] : List String) := List.not_mem_nil
  obtain ⟨e, he, hname⟩ := exists_mem_firsts hd hnew
  rw [← h.firsts] at he
  obtain ⟨s, hs, rfl⟩ := List.mem_map.1 he
  have hsame : s.name = d.name := (h.name_eq hs List.mem_cons_self).symm.trans hname
  refine ⟨s, hs, hsame, ?_⟩
  rw [h.contributors s hs]
  exact List.mem_filter.2 ⟨hd, beq_iff_eq.2 hsame.symm⟩

/-- The symbols with one more declaration are those of one more. -/
theorem claim (h : Groups symbols ds) (d : Declaration) :
    Groups (Symbol.claim d symbols) (ds ++ [d]) := by
  have hmem : d.name ∈ symbols.map name ↔ d.name ∈ ds.map Declaration.name := by
    constructor
    · intro hname
      obtain ⟨s, hs, hsame⟩ := List.mem_map.1 hname
      have hfirst : s.first ∈ s.contributors := List.mem_cons_self
      rw [← hsame, ← h.name_eq hs hfirst]
      rw [h.contributors s hs] at hfirst
      exact List.mem_map_of_mem (List.mem_filter.1 hfirst).1
    · intro hname
      obtain ⟨e, he, hsame⟩ := List.mem_map.1 hname
      obtain ⟨s, hs, hs', -⟩ := h.exists_symbol he
      exact List.mem_map.2 ⟨s, hs, hs'.trans hsame⟩
  rw [claim_eq h.nodup_names]
  constructor
  · split
    case isTrue =>
      rw [List.forall_mem_map]
      intro s hs
      rw [name_join, List.filter_append, ← h.contributors s hs, List.filter_cons, List.filter_nil, join]
      -- the declaration goes to the symbol of its name
      by_cases hname : s.name = d.name
      · rw [if_pos hname, if_pos (beq_iff_eq.2 hname.symm)]
        rfl
      · rw [if_neg hname, if_neg (fun heq => hname (beq_iff_eq.1 heq).symm), List.append_nil]
    case isFalse hnew =>
      rw [List.forall_mem_append, List.forall_mem_singleton]
      constructor
      · intro s hs
        have hne : ¬ (d.name == s.name) = true :=
          fun heq => hnew (List.mem_map.2 ⟨s, hs, (beq_iff_eq.1 heq).symm⟩)
        rw [List.filter_append, ← h.contributors s hs, List.filter_cons, List.filter_nil, if_neg hne,
          List.append_nil]
      · have hnone : ds.filter (·.name == d.name) = [] := by
          rw [List.filter_eq_nil_iff]
          intro e he heq
          exact hnew (hmem.2 (List.mem_map.2 ⟨e, he, beq_iff_eq.1 heq⟩))
        rw [List.filter_append, hnone, List.filter_cons, List.filter_nil, if_pos (beq_self_eq_true _)]
        rfl
  · rw [firsts_append_singleton, List.nil_append]
    simp only [← hmem]
    split
    · rw [List.map_map, ← h.firsts]
      exact List.map_congr_left fun s _ => first_join d s
    · rw [List.map_append, h.firsts]
      rfl

end Groups

theorem ofDeclarations_groups (ds : List Declaration) : Groups (ofDeclarations ds) ds := by
  induction ds using List.reverseRecOn with
  | nil => exact ⟨nofun, rfl⟩
  | append_singleton ds d ih =>
    rw [ofDeclarations, List.foldl_append]
    exact ih.claim d

end Symbol

/-! ## The symbols of a set of modules -/

namespace ModuleSet

variable {set : ModuleSet}

/-- A declaration is known by its place. -/
theorem eq_of_origin_eq {d e : Declaration} (hd : d ∈ set.declarations) (he : e ∈ set.declarations)
    (h : d.origin = e.origin) : d = e :=
  List.inj_on_of_nodup_map set.nodup_origins hd he h

theorem nodup_declarations (set : ModuleSet) : set.declarations.Nodup :=
  List.Nodup.of_map _ set.nodup_origins

theorem groups (set : ModuleSet) :
    Symbol.Groups (SymbolTable.ofSet set).symbols set.declarations :=
  Symbol.ofDeclarations_groups set.declarations

end ModuleSet

end ModuleLinker
