import ModuleLinker.Plan.Internalization
import ModuleLinker.Plan.Types
import ModuleLinker.Proofs.Logging
import ModuleLinker.Proofs.SymbolTable

namespace ModuleLinker

/-! # Decisions on types

Which types are hidden is settled by the policy for each type on its own; the order of types only
matters to the new names, each of which is taken before the next type is looked at. Which types become one
is settled by the first type that claims their name.
-/

/-! ## Types that are hidden -/

/-- Whether a policy selects a type to be hidden, whatever its visibility is. -/
def Policy.selects (p : Policy) (d : Declaration) : Bool :=
  d.origin.module != 0 && p.internalizes d.module.name &&
    !p.sharesNamespace d.type.namespaceName && !p.isExcluded d.module.name d.name &&
    !(p.options.keepSerializable && d.type.flags.contains .serializable)

namespace Internalization

variable {table : SymbolTable} {p : Policy} {merged : Merged}

/-- Whether a type does not stay as it is declared. -/
def changes (p : Policy) (merged : Merged) (d : Declaration) : Bool :=
  !isMerged merged d.origin && d.type.flags.isPublic && p.selects d

theorem changes_eq (p : Policy) (merged : Merged) (d : Declaration) :
    changes p merged d = (isCandidate p merged d && !p.isExcluded d.module.name d.name &&
      !(p.options.keepSerializable && d.type.flags.contains .serializable)) := by
  unfold changes Policy.selects isCandidate
  grind

theorem exists_of_isRename {decision : Internalization} (h : decision.isRename) :
    ∃ name, decision = rename name := by
  cases decision with
  | rename name => exact ⟨name, rfl⟩
  | keep => exact absurd h Bool.false_ne_true
  | hide => exact absurd h Bool.false_ne_true

/-- The qualified name that a decision gives to a type, if it gives it a new one. -/
def newName (d : Declaration) : Internalization → List String
  | rename name => [qualifiedName d.type.namespaceName name]
  | _ => []

/-- A type that does not stay as it is declared is hidden, and has a fresh name if another type of its own
claims its name or if that is asked for. -/
theorem decideOn_yields (d : Declaration) (names : FreshNames) :
    Naming.Yields (decideOn table p merged d) names fun result names' =>
      (result.isSome ↔ changes p merged d) ∧ result ≠ some keep ∧
        (∀ decision, result = some decision →
          (decision.isRename ↔ collides table merged d ∨ p.options.renameInternalized)) ∧
        names.Takes (newName d (result.getD keep)) names' := by
  rw [changes_eq]
  unfold decideOn
  by_cases hcandidate : isCandidate p merged d
  case neg =>
    rw [if_pos (by simpa using hcandidate)]
    exact .pure ⟨by simp [hcandidate], nofun, nofun, .refl names⟩
  rw [if_neg (by simpa using hcandidate)]
  by_cases hexcluded : p.isExcluded d.module.name d.name
  case pos =>
    rw [if_pos hexcluded]
    refine (Naming.Yields.verbose _).bind ?_
    rintro _ _ rfl
    exact .pure ⟨by simp [hexcluded], nofun, nofun, .refl _⟩
  rw [if_neg hexcluded]
  split
  case isTrue hkept => exact .pure ⟨by simp [hkept], nofun, nofun, .refl names⟩
  case isFalse hkept =>
    split
    case isTrue hrename =>
      refine (Naming.Yields.fresh d).bind fun name names' htakes => ?_
      refine (Naming.Yields.verbose _).bind ?_
      rintro _ _ rfl
      refine .pure ⟨by simp [hcandidate, hexcluded, hkept], nofun, ?_, htakes⟩
      rintro _ heq
      obtain rfl := Option.some.inj heq
      exact iff_of_true rfl (by simpa using hrename)
    case isFalse hrename =>
      refine .pure ⟨by simp [hcandidate, hexcluded, hkept], nofun, ?_, .refl names⟩
      rintro _ heq
      obtain rfl := Option.some.inj heq
      exact iff_of_false Bool.false_ne_true (by simpa using hrename)

/-! ## All decisions -/

/-- What the decisions on declarations say: which of these stay as they are declared, which of the others
have new names, and which names have been taken for these. -/
structure Decided (table : SymbolTable) (p : Policy) (merged : Merged) (ds : List Declaration)
    (names : FreshNames) (decisions : Decisions) (names' : FreshNames) : Prop where
  origins : decisions.map Prod.fst ⊆ ds.map Declaration.origin
  keep_iff : ∀ d ∈ ds, decisionOn decisions d.origin = keep ↔ ¬ changes p merged d
  rename_iff : ∀ d ∈ ds, changes p merged d → ((decisionOn decisions d.origin).isRename ↔
    collides table merged d ∨ p.options.renameInternalized)
  takes : names.Takes (ds.flatMap fun d => newName d (decisionOn decisions d.origin)) names'

theorem decisionOn_head (first : Option Internalization) {d : Declaration} {others : Decisions}
    (hd : d.origin ∉ others.map Prod.fst) :
    decisionOn ((first.map fun decision => (d.origin, decision)).toList ++ others) d.origin =
      first.getD keep := by
  rcases first with _ | decision
  · have hnone : others.lookup d.origin = none := by
      rw [List.lookup_eq_none_iff]
      intro entry hentry
      simpa using fun heq : d.origin = entry.1 => hd (heq ▸ List.mem_map_of_mem hentry)
    rw [decisionOn]
    exact congrArg (Option.getD · keep) hnone
  · simp [decisionOn]

theorem decisionOn_rest (first : Option Internalization) {d e : Declaration} (others : Decisions)
    (hne : e.origin ≠ d.origin) :
    decisionOn ((first.map fun decision => (d.origin, decision)).toList ++ others) e.origin =
      decisionOn others e.origin := by
  rcases first with _ | decision
  · rfl
  · have hbeq : (e.origin == d.origin) = false := by simpa using hne
    simp [decisionOn, List.lookup_cons, hbeq]

theorem decideAll_yields {ds : List Declaration} (hnodup : (ds.map Declaration.origin).Nodup)
    (names : FreshNames) :
    Naming.Yields (decideAll table p merged ds) names (Decided table p merged ds names) := by
  induction ds generalizing names with
  | nil => exact .pure ⟨List.Subset.refl _, nofun, nofun, .refl names⟩
  | cons d ds ih =>
    rw [List.map_cons, List.nodup_cons] at hnodup
    rw [decideAll]
    refine (decideOn_yields d names).bind ?_
    rintro first names₁ ⟨hsome, hkeep, hrename, hfirst⟩
    refine (ih hnodup.2 names₁).bind fun others names₂ hothers => .pure ?_
    have hhead := decisionOn_head first fun hmem => hnodup.1 (hothers.origins hmem)
    have hrest : ∀ e ∈ ds, decisionOn ((first.map fun decision => (d.origin, decision)).toList ++
        others) e.origin = decisionOn others e.origin := by
      intro e he
      exact decisionOn_rest first others fun heq => hnodup.1 (heq ▸ List.mem_map_of_mem he)
    constructor
    · rw [List.map_append, List.map_cons]
      refine List.append_subset.2 ⟨?_, List.subset_cons_of_subset _ hothers.origins⟩
      rcases first <;> simp
    · refine List.forall_mem_cons.2 ⟨?_, ?_⟩
      · rw [hhead, ← hsome]
        rcases first with _ | decision
        · simp
        · simpa using fun heq => hkeep (congrArg some heq)
      · intro e he
        rw [hrest e he]
        exact hothers.keep_iff e he
    · refine List.forall_mem_cons.2 ⟨fun hchanges => ?_, ?_⟩
      · obtain ⟨decision, hdecision⟩ := Option.isSome_iff_exists.1 (hsome.2 hchanges)
        rw [hhead, hdecision]
        exact hrename decision hdecision
      · intro e he
        rw [hrest e he]
        exact hothers.rename_iff e he
    · rw [List.flatMap_cons, hhead]
      have htail : ds.flatMap (fun e => newName e (decisionOn ((first.map fun decision =>
          (d.origin, decision)).toList ++ others) e.origin)) =
          ds.flatMap fun e => newName e (decisionOn others e.origin) :=
        List.flatMap_congr fun e he => by rw [hrest e he]
      rw [htail]
      exact hfirst.trans hothers.takes

end Internalization

/-! ## Types that become one

Of the types that claim a name, the first one stays a type of its own, and each later one either
becomes part of the first or stays a type of its own too. Which of the two it is depends on the type
and on the first one alone.
-/

namespace ModuleSet

/-- The types that claim a name, in the order of modules and declarations. -/
def claimants (set : ModuleSet) (name : String) : List Declaration :=
  set.declarations.filter (·.name == name)

/-- Whether a type becomes part of the first one that claims its name. -/
def joins (set : ModuleSet) (p : Policy) (d : Declaration) : Bool :=
  (set.claimants d.name).head?.any fun first =>
    d.origin != first.origin && Plan.joins p first d

variable {set : ModuleSet} {p : Policy}

theorem claimants_eq {s : Symbol} (hs : s ∈ (SymbolTable.ofSet set).symbols) :
    set.claimants s.name = s.first :: s.others :=
  (set.groups.contributors s hs).symm

theorem mem_declarations_of_mem {s : Symbol} (hs : s ∈ (SymbolTable.ofSet set).symbols)
    {d : Declaration} (hd : d ∈ s.contributors) : d ∈ set.declarations := by
  rw [set.groups.contributors s hs] at hd
  exact (List.mem_filter.1 hd).1

theorem first_not_mem_others {s : Symbol} (hs : s ∈ (SymbolTable.ofSet set).symbols) :
    s.first ∉ s.others := by
  have hnodup := set.nodup_declarations.filter (·.name == s.name)
  rw [← set.groups.contributors s hs] at hnodup
  exact (List.nodup_cons.1 hnodup).1

/-- Of the contributors of a symbol those join the first one that are behind it and fit it. -/
theorem joins_iff {s : Symbol} (hs : s ∈ (SymbolTable.ofSet set).symbols) {d : Declaration}
    (hd : d ∈ s.contributors) : set.joins p d ↔ d ∈ s.others ∧ Plan.joins p s.first d := by
  have hname := set.groups.name_eq hs hd
  unfold joins
  rw [hname, claimants_eq hs, List.head?_cons, Option.any_some, Bool.and_eq_true, bne_iff_ne]
  refine and_congr_left fun _ => ?_
  constructor
  · intro hne
    exact (List.mem_cons.1 hd).resolve_left fun heq => hne (heq ▸ rfl)
  · intro hothers heq
    -- declarations of one place are one declaration, and the first one is not among the others
    have hsame := eq_of_origin_eq (mem_declarations_of_mem hs hd)
      (mem_declarations_of_mem hs List.mem_cons_self) heq
    exact first_not_mem_others hs (hsame ▸ hothers)

theorem first_not_joins {s : Symbol} (hs : s ∈ (SymbolTable.ofSet set).symbols) :
    ¬ set.joins p s.first := by
  rw [joins_iff hs List.mem_cons_self]
  exact fun h => first_not_mem_others hs h.1

end ModuleSet

namespace Plan

open Internalization ModuleSet

variable {set : ModuleSet} {p : Policy}

/-- The types behind the first one of a symbol that become part of it. -/
def joined (p : Policy) (s : Symbol) : List Declaration := s.others.filter (joins p s.first)

/-- The types that become part of others, with the places of both. -/
def mergedOf (p : Policy) (symbols : List Symbol) : Merged :=
  symbols.flatMap fun s => (joined p s).map fun d => (d.origin, s.first.origin)

theorem mergeSymbol_answers (p : Policy) (s : Symbol) :
    (mergeSymbol p s).Answers (· = (joined p s).map fun d => (d.origin, s.first.origin)) := by
  unfold mergeSymbol
  exact Logging.Answers.bind fun _ => .pure rfl

/-- A symbol of one type has none that becomes part of it. -/
theorem mergedOf_collisions (p : Policy) (table : SymbolTable) :
    mergedOf p table.collisions = mergedOf p table.symbols := by
  unfold mergedOf SymbolTable.collisions
  induction table.symbols with
  | nil => rfl
  | cons s symbols ih =>
    rw [List.filter_cons]
    split
    case isTrue => rw [List.flatMap_cons, List.flatMap_cons, ih]
    case isFalse hs =>
      have hnone : s.others = [] := by simpa [Symbol.isCollision] using hs
      rw [ih, List.flatMap_cons, joined, hnone]
      rfl

theorem mergeSymbols_answers (p : Policy) (table : SymbolTable) :
    (mergeSymbols p table).Answers (· = mergedOf p table.symbols) := by
  unfold mergeSymbols
  refine (Logging.Answers.mapM (mergeSymbol_answers p) _).seq ?_
  rintro _ rfl
  refine .pure ?_
  rw [← mergedOf_collisions, mergedOf, List.flatMap_def]

/-- The types of a set of modules that become part of others. -/
abbrev mergedIn (set : ModuleSet) (p : Policy) : Merged :=
  mergedOf p (SymbolTable.ofSet set).symbols

theorem mem_mergedIn {origin target : Origin} : (origin, target) ∈ mergedIn set p ↔
    ∃ s ∈ (SymbolTable.ofSet set).symbols, ∃ d ∈ joined p s,
      d.origin = origin ∧ s.first.origin = target := by
  simp only [mergedOf, List.mem_flatMap, List.mem_map, Prod.mk.injEq]

/-- A declaration is among those that become part of others exactly if it joins the first one. -/
theorem isMerged_iff {d : Declaration} (hd : d ∈ set.declarations) :
    isMerged (mergedIn set p) d.origin ↔ set.joins p d := by
  obtain ⟨s, hs, -, hmem⟩ := set.groups.exists_symbol hd
  have hsome : isMerged (mergedIn set p) d.origin ↔ ∃ target, (d.origin, target) ∈ mergedIn set p := by
    rw [isMerged, Option.isSome_iff_ne_none, Ne, List.lookup_eq_none_iff]
    push Not
    constructor
    · rintro ⟨⟨origin, target⟩, hentry, heq⟩
      have hsame : d.origin = origin := by simpa using heq
      exact ⟨target, hsame ▸ hentry⟩
    · rintro ⟨target, hentry⟩
      exact ⟨_, hentry, by simp⟩
  rw [hsome, joins_iff hs hmem]
  constructor
  · rintro ⟨target, hentry⟩
    obtain ⟨s', hs', e, he, horigin, -⟩ := mem_mergedIn.1 hentry
    obtain ⟨hothers, hjoins⟩ := List.mem_filter.1 he
    have hcontributor : e ∈ s'.contributors := List.mem_cons_of_mem _ hothers
    obtain rfl := eq_of_origin_eq (mem_declarations_of_mem hs' hcontributor) hd horigin
    -- both symbols have the name of the declaration
    have hsame := set.groups.eq_of_name_eq hs' hs
      ((set.groups.name_eq hs' hcontributor).symm.trans (set.groups.name_eq hs hmem))
    exact hsame ▸ ⟨hothers, hjoins⟩
  · rintro ⟨hothers, hjoins⟩
    exact ⟨_, mem_mergedIn.2 ⟨s, hs, d, List.mem_filter.2 ⟨hothers, hjoins⟩, rfl, rfl⟩⟩

/-- The types of a symbol that stay types of their own. -/
def remaining (set : ModuleSet) (p : Policy) (s : Symbol) : List Declaration :=
  s.contributors.filter fun d => !set.joins p d

theorem filter_isMerged_eq {s : Symbol} (hs : s ∈ (SymbolTable.ofSet set).symbols) :
    s.contributors.filter (fun d => !isMerged (mergedIn set p) d.origin) = remaining set p s := by
  refine List.filter_congr fun d hd => ?_
  rw [Bool.eq_iff_iff.2 (isMerged_iff (mem_declarations_of_mem hs hd))]

/-- What becomes part of another type and what stays make up all contributors. -/
theorem joined_append_remaining_perm {s : Symbol} (hs : s ∈ (SymbolTable.ofSet set).symbols) :
    (joined p s ++ remaining set p s).Perm s.contributors := by
  have hjoined : s.contributors.filter (fun d => set.joins p d) = joined p s := by
    have hfirst : ¬ set.joins p s.first := first_not_joins hs
    rw [Symbol.contributors, List.filter_cons, if_neg hfirst, joined]
    refine List.filter_congr fun d hd => Bool.eq_iff_iff.2 ?_
    rw [joins_iff hs (List.mem_cons_of_mem _ hd)]
    exact ⟨fun h => h.2, fun h => ⟨hd, h⟩⟩
  rw [← hjoined, remaining]
  exact List.filter_append_perm _ _

theorem first_mem_remaining {s : Symbol} (hs : s ∈ (SymbolTable.ofSet set).symbols) :
    s.first ∈ remaining set p s := by
  refine List.mem_filter.2 ⟨List.mem_cons_self, ?_⟩
  simpa using first_not_joins hs

end Plan

end ModuleLinker
