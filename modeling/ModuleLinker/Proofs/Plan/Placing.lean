import ModuleLinker.Plan.Types
import ModuleLinker.Proofs.Logging

namespace ModuleLinker

/-! # Placing the types of a symbol

A symbol is in conflict if two of its types stay public. If none is, every type of every symbol that
stays a type of its own is placed: under its new name if one was decided on, under the declared name
if it is the one that keeps it, and under a fresh name otherwise.
-/

/-! ## Placing that may fail -/

/-- From the names `names` the computation answers, and does so as the relation says. -/
def Naming.Succeeds (x : Plan.Placing α) (names : FreshNames) (post : α → FreshNames → Prop) : Prop :=
  Yields x.run names fun result names' => ∃ a, result = .ok a ∧ post a names'

/-- From the names `names` the computation is stopped by a fault. -/
def Naming.Fails (x : Plan.Placing α) (names : FreshNames) (fault : Fault) : Prop :=
  Yields x.run names fun result _ => result = .error fault

namespace Naming

variable {x : Plan.Placing α} {f : α → Plan.Placing β} {names : FreshNames}
  {p : α → FreshNames → Prop} {q : β → FreshNames → Prop} {fault : Fault}

theorem run_bind (x : Plan.Placing α) (f : α → Plan.Placing β) :
    (x >>= f).run = x.run >>= ExceptT.bindCont f := rfl

namespace Succeeds

theorem answers (hx : Succeeds x names p) :
    (x.run.run names).Answers fun r => ∃ a, r.1 = .ok a ∧ p a r.2 := hx

theorem pure {a : α} (h : p a names) : Succeeds (Pure.pure a) names p :=
  Yields.pure ⟨a, rfl, h⟩

theorem lift {x : Naming α} (hx : Yields x names p) : Succeeds (liftM x) names p :=
  hx.bind fun a _ ha => Yields.pure ⟨a, rfl, ha⟩

theorem bind (hx : Succeeds x names p) (hf : ∀ a names', p a names' → Succeeds (f a) names' q) :
    Succeeds (x >>= f) names q := by
  unfold Succeeds
  rw [run_bind]
  refine Yields.bind hx ?_
  rintro _ names' ⟨a, rfl, ha⟩
  exact hf a names' ha

/-- What comes after an answer may fail. -/
theorem bind_fails (hx : Succeeds x names p) (hf : ∀ a names', p a names' → Fails (f a) names' fault) :
    Fails (x >>= f) names fault := by
  unfold Fails
  rw [run_bind]
  refine Yields.bind hx ?_
  rintro _ names' ⟨a, rfl, ha⟩
  exact hf a names' ha

end Succeeds

theorem Fails.answers (hx : Fails x names fault) :
    (x.run.run names).Answers fun r => r.1 = .error fault := hx

/-- After a fault nothing is done. -/
theorem Fails.bind (hx : Fails x names fault) : Fails (x >>= f) names fault := by
  unfold Fails
  rw [run_bind]
  refine Yields.bind hx ?_
  rintro _ names' rfl
  exact Yields.pure rfl

end Naming

namespace Plan

open Internalization Naming

variable {decisions : Decisions} {merged : Merged}

/-! ## One type -/

/-- The qualified name of a placed type. -/
def Placed.outputName (x : Placed) : String :=
  qualifiedName x.declaration.type.namespaceName x.name

/-- Whether a type got its name only when it was placed. -/
def Placed.isFresh (decisions : Decisions) (x : Placed) : Bool :=
  !(decisionOn decisions x.declaration.origin).isRename && x.name != x.declaration.type.name

/-- The names that types got only when they were placed. -/
def freshNames (decisions : Decisions) (xs : List Placed) : List String :=
  (xs.filter (Placed.isFresh decisions)).map Placed.outputName

/-- A type is placed as was decided: it has the new name if there is one, else the declared name if
and only if it is the one that keeps it; and it is hidden unless it stays as it is declared. -/
structure PlacedBy (decisions : Decisions) (winner : Option Origin) (x : Placed) : Prop where
  renamed : ∀ name, decisionOn decisions x.declaration.origin = .rename name → x.name = name
  kept : ¬ (decisionOn decisions x.declaration.origin).isRename →
    (x.name = x.declaration.type.name ↔ winner = some x.declaration.origin)
  hide : x.hide = (decisionOn decisions x.declaration.origin != .keep)

theorem placeType_yields (winner : Option Origin) {d : Declaration} {names : FreshNames}
    (htaken : names.Taken d.name) :
    Yields (placeType decisions winner d) names fun x names' =>
      x.declaration = d ∧ PlacedBy decisions winner x ∧
        names.Takes (freshNames decisions [x]) names' := by
  unfold placeType
  dsimp only
  split
  case h_1 name hdecision =>
    refine .pure ⟨rfl, ⟨?_, ?_, ?_⟩, ?_⟩
    · intro other hother
      exact Internalization.rename.inj (hdecision.symm.trans hother)
    · intro hrename
      exact absurd (by rw [hdecision]; rfl) hrename
    · rw [hdecision]
      rfl
    · have hnone : freshNames decisions [⟨d, name, true⟩] = [] := by
        simp [freshNames, Placed.isFresh, hdecision, isRename]
      rw [hnone]
      exact .refl names
  case h_2 hdecision =>
    have hrename : (decisionOn decisions d.origin).isRename = false := by
      rcases hcase : decisionOn decisions d.origin with _ | _ | name
      · rfl
      · rfl
      · exact absurd hcase (hdecision name)
    have hhide : (decisionOn decisions d.origin == .hide) = (decisionOn decisions d.origin != .keep) := by
      rcases hcase : decisionOn decisions d.origin with _ | _ | name
      · rfl
      · rfl
      · exact absurd hcase (hdecision name)
    split
    case isTrue hwinner =>
      refine .pure ⟨rfl, ⟨fun name h => absurd h (hdecision name), ?_, hhide⟩, ?_⟩
      · exact fun _ => iff_of_true rfl hwinner
      · have hnone : freshNames decisions [⟨d, d.type.name, decisionOn decisions d.origin == .hide⟩] =
            [] := by
          simp [freshNames, Placed.isFresh]
        rw [hnone]
        exact .refl names
    case isFalse hwinner =>
      refine (Yields.fresh d).bind fun name names' htakes => ?_
      refine (Yields.verbose _).bind ?_
      rintro _ _ rfl
      -- the declared name is taken, so that the fresh one is another
      have hne : name ≠ d.type.name := by
        rintro rfl
        exact htakes.free _ List.mem_cons_self htaken
      refine .pure ⟨rfl, ⟨fun name h => absurd h (hdecision name), ?_, hhide⟩, ?_⟩
      · exact fun _ => iff_of_false hne hwinner
      · have hone : freshNames decisions [⟨d, name, decisionOn decisions d.origin == .hide⟩] =
            [qualifiedName d.type.namespaceName name] := by
          simp [freshNames, Placed.isFresh, hrename, hne, Placed.outputName]
        rw [hone]
        exact htakes

/-! ## One symbol -/

/-- The types of a symbol that stay types of their own. -/
abbrev remainingOf (merged : Merged) (s : Symbol) : List Declaration :=
  s.contributors.filter fun d => !isMerged merged d.origin

/-- The fault of a symbol of which two types stay public; the first two are named. -/
def conflict? (decisions : Decisions) (merged : Merged) (s : Symbol) : Option Fault :=
  match publicKeepers decisions (remainingOf merged s) with
  | first :: second :: _ => some (.conflict s.name first.module.name second.module.name)
  | _ => none

/-- The type of a symbol that keeps the name. -/
def winner? (decisions : Decisions) (merged : Merged) (s : Symbol) : Option Origin :=
  ((publicKeepers decisions (remainingOf merged s)).head?.or
    (keepers decisions (remainingOf merged s)).head?).map Declaration.origin

theorem placeAll_succeeds (winner : Option Origin) {ds : List Declaration} {names : FreshNames}
    (htaken : ∀ d ∈ ds, names.Taken d.name) :
    Succeeds (ds.mapM fun d => liftM (placeType decisions winner d)) names fun xs names' =>
      xs.map Placed.declaration = ds ∧ (∀ x ∈ xs, PlacedBy decisions winner x) ∧
        names.Takes (freshNames decisions xs) names' := by
  induction ds generalizing names with
  | nil =>
    rw [List.mapM_nil]
    exact .pure ⟨rfl, nofun, .refl names⟩
  | cons d ds ih =>
    obtain ⟨hd, hds⟩ := List.forall_mem_cons.1 htaken
    rw [List.mapM_cons]
    refine (Succeeds.lift (placeType_yields winner hd)).bind ?_
    rintro x names₁ ⟨hx, hplaced, hfirst⟩
    refine (ih fun e he => hfirst.mono (hds e he)).bind ?_
    rintro xs names₂ ⟨hxs, hall, hrest⟩
    refine .pure ⟨?_, List.forall_mem_cons.2 ⟨hplaced, hall⟩, ?_⟩
    · rw [List.map_cons, hx, hxs]
    · have happend : freshNames decisions (x :: xs) =
          freshNames decisions [x] ++ freshNames decisions xs := by
        rw [freshNames, ← List.singleton_append, List.filter_append, List.map_append]
        rfl
      rw [happend]
      exact hfirst.trans hrest

theorem placeSymbol_succeeds {s : Symbol} {names : FreshNames}
    (hconflict : conflict? decisions merged s = none)
    (htaken : ∀ d ∈ remainingOf merged s, names.Taken d.name) :
    Succeeds (placeSymbol decisions merged s) names fun xs names' =>
      xs.map Placed.declaration = remainingOf merged s ∧
        (∀ x ∈ xs, PlacedBy decisions (winner? decisions merged s) x) ∧
        names.Takes (freshNames decisions xs) names' := by
  unfold placeSymbol
  dsimp only
  split
  case h_1 first second rest hpublic =>
    rw [conflict?, hpublic] at hconflict
    exact nomatch hconflict
  case h_2 visible =>
    exact placeAll_succeeds _ htaken

theorem placeSymbol_fails {s : Symbol} {names : FreshNames} {fault : Fault}
    (hconflict : conflict? decisions merged s = some fault) :
    Fails (placeSymbol decisions merged s) names fault := by
  unfold placeSymbol
  dsimp only
  split
  case h_1 first second rest hpublic =>
    rw [conflict?, hpublic] at hconflict
    obtain rfl := Option.some.inj hconflict
    exact (Yields.error _).bind fun _ _ _ => Yields.pure rfl
  case h_2 visible hvisible =>
    rw [conflict?] at hconflict
    split at hconflict
    · exact absurd ‹_› (hvisible _ _ _)
    · cases hconflict

/-! ## All symbols -/

/-- What the placed types of symbols are: all that stay types of their own, each placed as was
decided for its symbol. -/
structure PlacedAll (decisions : Decisions) (merged : Merged) (symbols : List Symbol)
    (xs : List Placed) : Prop where
  declarations : xs.map Placed.declaration = symbols.flatMap (remainingOf merged)
  placed : ∀ x ∈ xs, ∃ s ∈ symbols, x.declaration ∈ remainingOf merged s ∧
    PlacedBy decisions (winner? decisions merged s) x

theorem placeEach_succeeds {symbols : List Symbol} {names : FreshNames}
    (hconflict : ∀ s ∈ symbols, conflict? decisions merged s = none)
    (htaken : ∀ s ∈ symbols, ∀ d ∈ remainingOf merged s, names.Taken d.name) :
    Succeeds (symbols.mapM (placeSymbol decisions merged)) names fun xss names' =>
      PlacedAll decisions merged symbols xss.flatten ∧
        names.Takes (freshNames decisions xss.flatten) names' := by
  induction symbols generalizing names with
  | nil =>
    rw [List.mapM_nil]
    exact .pure ⟨⟨rfl, nofun⟩, .refl names⟩
  | cons s symbols ih =>
    obtain ⟨hs, hsymbols⟩ := List.forall_mem_cons.1 hconflict
    obtain ⟨hfirst, hrest⟩ := List.forall_mem_cons.1 htaken
    rw [List.mapM_cons]
    refine (placeSymbol_succeeds hs hfirst).bind ?_
    rintro xs names₁ ⟨hxs, hplaced, htakes⟩
    refine (ih hsymbols fun s' hs' d hd => htakes.mono (hrest s' hs' d hd)).bind ?_
    rintro xss names₂ ⟨hall, htakes'⟩
    refine .pure ⟨⟨?_, ?_⟩, ?_⟩
    · rw [List.flatten_cons, List.map_append, hxs, hall.declarations, List.flatMap_cons]
    · rw [List.flatten_cons, List.forall_mem_append]
      constructor
      · intro x hx
        exact ⟨s, List.mem_cons_self, hxs ▸ List.mem_map_of_mem hx, hplaced x hx⟩
      · intro x hx
        obtain ⟨s', hs', hx'⟩ := hall.placed x hx
        exact ⟨s', List.mem_cons_of_mem _ hs', hx'⟩
    · rw [List.flatten_cons, freshNames, List.filter_append, List.map_append]
      exact htakes.trans htakes'

theorem placeSymbols_succeeds {table : SymbolTable} {names : FreshNames}
    (hconflict : ∀ s ∈ table.symbols, conflict? decisions merged s = none)
    (htaken : ∀ s ∈ table.symbols, ∀ d ∈ remainingOf merged s, names.Taken d.name) :
    Succeeds (placeSymbols decisions merged table) names fun xs names' =>
      PlacedAll decisions merged table.symbols xs ∧
        names.Takes (freshNames decisions xs) names' := by
  unfold placeSymbols
  exact (placeEach_succeeds hconflict htaken).bind fun _ _ h => .pure h

/-- The first symbol that is in conflict stops the placing. -/
theorem placeEach_fails {before after : List Symbol} {s : Symbol} {names : FreshNames} {fault : Fault}
    (hbefore : ∀ s ∈ before, conflict? decisions merged s = none)
    (htaken : ∀ s ∈ before, ∀ d ∈ remainingOf merged s, names.Taken d.name)
    (hs : conflict? decisions merged s = some fault) :
    Fails ((before ++ s :: after).mapM (placeSymbol decisions merged)) names fault := by
  induction before generalizing names with
  | nil =>
    rw [List.nil_append, List.mapM_cons]
    exact (placeSymbol_fails hs).bind
  | cons s' before ih =>
    obtain ⟨hs', hrest⟩ := List.forall_mem_cons.1 hbefore
    obtain ⟨hfirst, htakenRest⟩ := List.forall_mem_cons.1 htaken
    rw [List.cons_append, List.mapM_cons]
    refine (placeSymbol_succeeds hs' hfirst).bind_fails ?_
    rintro xs names₁ ⟨-, -, htakes⟩
    exact (ih hrest fun s'' hs'' d hd => htakes.mono (htakenRest s'' hs'' d hd)).bind

theorem placeSymbols_fails {table : SymbolTable} {before after : List Symbol} {s : Symbol}
    {names : FreshNames} {fault : Fault} (hsymbols : table.symbols = before ++ s :: after)
    (hbefore : ∀ s ∈ before, conflict? decisions merged s = none)
    (htaken : ∀ s ∈ before, ∀ d ∈ remainingOf merged s, names.Taken d.name)
    (hs : conflict? decisions merged s = some fault) :
    Fails (placeSymbols decisions merged table) names fault := by
  unfold placeSymbols
  rw [hsymbols]
  exact (placeEach_fails hbefore htaken hs).bind

end Plan

end ModuleLinker
