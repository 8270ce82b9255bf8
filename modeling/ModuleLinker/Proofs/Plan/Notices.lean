import ModuleLinker.Plan.Build
import ModuleLinker.Proofs.Reporting.Notices

namespace ModuleLinker

/-! # What planning notes

Deciding on types and placing them tells of details only, apart from a conflict. An entry that is left
out is noted by the part that leaves it out, under the kind of entry that this part plans.
-/

open Logging

/-- A detail. -/
def Notice.IsVerbose (n : Notice) : Prop := ∃ text, n = .verbose text

/-- A detail, or a conflict. -/
def Notice.OfPlacing (n : Notice) : Prop := n.IsVerbose ∨ ∃ text, n = .error text

/-- A detail, or an attribute that was left out. -/
def Notice.OfAttributes (n : Notice) : Prop := n.IsVerbose ∨ ∃ name, n = .duplicate "attribute" name

theorem Logging.Tells.detail (text : String) : Tells Notice.IsVerbose (Logging.verbose text) :=
  .note ⟨text, rfl⟩

namespace NamedAttribute

theorem offer_tells (s : ModuleSet) (p : Policy) (source : AttributeSource) (kept : List NamedAttribute)
    (a : NamedAttribute) : Tells Notice.OfAttributes (offer s p source kept a) := by
  have h : Stepwise (@Tells Notice.OfAttributes) := Tells.stepwise
  have hduplicate : Tells Notice.OfAttributes (Logging.duplicate "attribute" a.name) :=
    .note (.inr ⟨_, rfl⟩)
  unfold offer
  dsimp only
  split
  case isTrue => exact h.bind hduplicate fun _ => h.pure _
  case isFalse =>
    split
    case isTrue => exact h.pure _
    case isFalse =>
      exact h.bind (.note (.inl ⟨_, rfl⟩)) fun _ => h.bind hduplicate fun _ => h.pure _

end NamedAttribute

namespace Internalization

variable (table : SymbolTable) (p : Policy) (merged : Merged)

theorem decideOn_tells (d : Declaration) (names : FreshNames) :
    Tells Notice.IsVerbose ((decideOn table p merged d).run names) := by
  have h : Stepwise (@Tells Notice.IsVerbose) := Tells.stepwise
  have hs := h.stateT (σ := FreshNames)
  revert names
  unfold decideOn
  split
  case isTrue => exact hs.pure _
  case isFalse =>
  split
  case isTrue => exact fun names => h.bind (.detail _) fun _ => h.pure _
  case isFalse =>
  split
  case isTrue => exact hs.pure _
  case isFalse =>
  split
  case isTrue => exact fun names => h.bind (.detail _) fun _ => h.pure _
  case isFalse => exact hs.pure _

theorem decideAll_tells (ds : List Declaration) (names : FreshNames) :
    Tells Notice.IsVerbose ((decideAll table p merged ds).run names) := by
  have h : Stepwise (@Tells Notice.IsVerbose) := Tells.stepwise
  have hs := h.stateT (σ := FreshNames)
  induction ds generalizing names with
  | nil => exact hs.pure _ names
  | cons d rest ih =>
    exact hs.bind (decideOn_tells table p merged d) (fun _ => hs.bind ih fun _ => hs.pure _) names

end Internalization

namespace Plan

open Internalization

variable (s : ModuleSet) (table : SymbolTable) (p : Policy)

theorem mergeSymbols_tells : Tells Notice.IsVerbose (mergeSymbols p table) := by
  have h : Stepwise (@Tells Notice.IsVerbose) := Tells.stepwise
  refine h.bind (h.mapM (fun symbol => ?_) _) fun _ => h.pure _
  exact h.bind (h.forIn (fun other _ => h.bind (.detail _) fun _ => h.pure _) _ _) fun _ => h.pure _

theorem placeType_tells (decisions : Decisions) (winner : Option Origin) (d : Declaration)
    (names : FreshNames) : Tells Notice.IsVerbose ((placeType decisions winner d).run names) := by
  have h : Stepwise (@Tells Notice.IsVerbose) := Tells.stepwise
  have hs := h.stateT (σ := FreshNames)
  revert names
  unfold placeType
  dsimp only
  split
  case h_1 => exact hs.pure _
  case h_2 =>
    split
    case isTrue => exact hs.pure _
    case isFalse => exact fun names => h.bind (.detail _) fun _ => h.pure _

/-- The conflict that stops the placing of a symbol's types is an error of the placing. -/
theorem placeSymbol_tells (decisions : Decisions) (merged : Merged) (symbol : Symbol)
    (names : FreshNames) :
    Tells Notice.OfPlacing ((placeSymbol decisions merged symbol).run.run names) := by
  have h : Stepwise (@Tells Notice.OfPlacing) := Tells.stepwise
  have hs := h.stateT (σ := FreshNames)
  revert names
  unfold placeSymbol
  dsimp only
  split
  case h_1 => exact fun _ => .note (.inr ⟨_, rfl⟩)
  case h_2 =>
    refine (hs.exceptT (ε := Fault)).mapM (fun d => hs.liftExceptT fun names => ?_) _
    exact (placeType_tells decisions _ d names).mono fun _ => .inl

theorem placeTypes_tells (merged : Merged) (names : FreshNames) :
    Tells Notice.OfPlacing ((placeTypes s table p merged).run.run names) := by
  have h : Stepwise (@Tells Notice.OfPlacing) := Tells.stepwise
  have hs := h.stateT (σ := FreshNames)
  have he := hs.exceptT (ε := Fault)
  revert names
  refine he.bind (hs.liftExceptT fun names => ?_) fun decisions => he.bind (hs.liftExceptT ?_) fun _ => ?_
  · exact (decideAll_tells table p merged _ names).mono fun _ => .inl
  · exact h.liftStateT ((Tells.detail _).mono fun _ => .inl)
  · exact he.bind (he.mapM (placeSymbol_tells decisions merged) _) fun _ => he.pure _

theorem planAttribute_tells (m : Module) (place : PlannedAttribute) (kept : KeptAttributes)
    (a : Attribute) : Tells Notice.OfAttributes (planAttribute s table p m place kept a) := by
  have h : Stepwise (@Tells Notice.OfAttributes) := Tells.stepwise
  unfold planAttribute
  dsimp only
  split
  case isTrue => exact h.bind (.note (.inl ⟨_, rfl⟩)) fun _ => h.pure _
  case isFalse =>
  split
  case isTrue => exact h.pure _
  case isFalse =>
    refine h.bind (NamedAttribute.offer_tells s p _ _ _) fun kept => ?_
    split
    case isTrue => exact h.pure _
    case isFalse => exact h.pure _

theorem planAttributes_tells : Tells Notice.OfAttributes (planAttributes s table p) := by
  have h : Stepwise (@Tells Notice.OfAttributes) := Tells.stepwise
  exact h.bind (h.foldlM (fun kept place => planAttribute_tells s table p _ _ kept _) _ _) fun _ =>
    h.pure _

end Plan

end ModuleLinker
