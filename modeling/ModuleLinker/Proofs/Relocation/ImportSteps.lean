import ModuleLinker.Proofs.Relocation.Substitution
import ModuleLinker.Proofs.Renaming.Stepwise
import ModuleLinker.Relocation.Output

namespace ModuleLinker

/-! # Imports step by step

An import is put together of a few operations on its tables. A property that these have, and that goes along
with the steps of a computation, is one of every import. Rows for members are left open: they are the only
ones in which something of an input stands that is no name.
-/

namespace Importing

/-- A property of computations that goes along with steps and that operations have which add no row for a
member. -/
structure Steps (T : (α : Type) → Importing α → Prop) : Prop extends Stepwise T where
  get : T ImportTables MonadState.get
  unbound {α : Type} (cause : Unbound) : T α (unbound cause)
  fresh (table : UInt8) : T Token (fresh table)
  change (f : ImportTables → ImportTables) (hf : ∀ tables, (f tables).memberRefs = tables.memberRefs) :
    T PUnit (modify f)

variable {T : (α : Type) → Importing α → Prop} {l : Linkage} {source : Nat}

namespace Steps

/-- What comes behind the module of a number may rely on it. -/
theorem module_bind (h : Steps T) {α : Type} {f : Module → Importing α}
    (hf : ∀ m, l.set.source? source = some m → T α (f m)) : T α (module l source >>= f) := by
  unfold Importing.module
  cases hm : l.set.source? source with
  | none => exact h.unbound _
  | some m => exact hf m hm

theorem known?_bind (h : Steps T) {α : Type} {k : SourceToken} {f : Option Token → Importing α}
    (hf : ∀ known, T α (f known)) : T α (known? k >>= f) :=
  h.bind (h.bind h.get fun _ => h.pure _) hf

theorem resolve (h : Steps T) (tables : ImportTables) (token : Token) :
    T Token (match tables.substitution.resolve source token with
      | .ok resolved => return resolved
      | .error fault => throw fault) := by
  rcases heq : tables.substitution.resolve source token with fault | resolved
  · obtain ⟨rfl, -⟩ := Substitution.resolve_eq_error heq
    exact h.unbound _
  · exact h.pure _

theorem keep (h : Steps T) (t : SourceToken) (new : Token) : T Token (do keep t new; return new) :=
  h.bind (h.change _ fun _ => rfl) fun _ => h.pure _

/-! ## Types -/

theorem reference (h : Steps T) (identity : Identity) : T UInt32 (reference identity) := by
  refine h.bind h.get fun tables => ?_
  dsimp only
  split
  case h_1 => exact h.pure _
  case h_2 => exact h.bind (h.change _ fun _ => rfl) fun _ => h.pure _

theorem typeRefRow (h : Steps T) (scope : Scope) (namespaceName name : String) :
    T Token (typeRefRow scope namespaceName name) := by
  refine h.bind h.get fun tables => ?_
  dsimp only
  split
  case h_1 => exact h.pure _
  case h_2 =>
    exact h.bind (h.fresh _) fun _ => h.bind (h.change _ fun _ => rfl) fun _ => h.pure _

theorem definition (h : Steps T) (input : Nat) (fullName : String) :
    T Token (definition l input fullName) := by
  refine h.module_bind fun m _ => ?_
  split
  case h_1 => exact h.unbound _
  case h_2 =>
    refine h.known?_bind fun known => ?_
    cases known with
    | none => exact h.unbound _
    | some token => exact h.pure _

theorem enclosedRows (h : Steps T) (outer : Token) (names : List String) :
    T Token (enclosedRows outer names) := by
  induction names generalizing outer with
  | nil => exact h.pure _
  | cons name rest ih => exact h.bind (h.typeRefRow _ _ _) fun _ => ih _

theorem attributeType (h : Steps T) (fullName : String) : T Token (attributeType l fullName) := by
  refine h.module_bind fun m _ => ?_
  split
  case h_1 => exact h.definition _ _
  case h_2 =>
    refine h.bind (h.reference _) fun index => ?_
    split
    case h_1 => exact h.pure _
    case h_2 => exact h.bind (h.typeRefRow _ _ _) fun _ => h.enclosedRows _ _

theorem typeRefFrom (h : Steps T) {enclosing : Option (Token → Importing Token)}
    (henclosing : ∀ f ∈ enclosing, ∀ t, T Token (f t)) (token : Token) :
    T Token (typeRefFrom l source enclosing token) := by
  refine h.known?_bind fun known => ?_
  split
  case h_1 => exact h.pure _
  case h_2 =>
  refine h.module_bind fun m _ => ?_
  split
  case h_2 => exact h.unbound _
  case h_1 row _ =>
  split
  case h_2 => exact h.unbound _
  case h_1 fullName _ =>
  dsimp only
  split
  case h_1 => exact h.bind (h.definition _ _) fun _ => h.keep _ _
  case h_2 =>
    split
    case h_1 => exact h.bind (h.attributeType _) fun _ => h.keep _ _
    case h_2 =>
      split
      case h_1 => exact h.bind (h.unbound _) fun _ => h.keep _ _
      case h_2 =>
        exact h.bind (h.reference _) fun _ => h.bind (h.typeRefRow _ _ _) fun _ => h.keep _ _
    case h_3 outer _ _ =>
      split
      case h_1 =>
        exact h.bind (henclosing _ rfl outer) fun _ => h.bind (h.typeRefRow _ _ _) fun _ => h.keep _ _
      case h_2 => exact h.bind (h.unbound _) fun _ => h.keep _ _
    case h_4 => exact h.bind (h.definition _ _) fun _ => h.keep _ _

theorem typeRefWithin (h : Steps T) (steps : Nat) (token : Token) :
    T Token (typeRefWithin l source steps token) := by
  induction steps generalizing token with
  | zero =>
    refine h.typeRefFrom ?_ token
    rintro _ ⟨⟩
  | succ steps ih =>
    refine h.typeRefFrom ?_ token
    rintro _ ⟨⟩ t
    exact ih t

theorem typeRef (h : Steps T) (token : Token) : T Token (typeRef l source token) :=
  h.module_bind fun _ _ => h.typeRefWithin _ token

theorem type (h : Steps T) (token : Token) : T Token (type l source token) := by
  refine h.known?_bind fun known => ?_
  split
  case h_1 => exact h.pure _
  case h_2 =>
  split
  case isTrue => exact h.typeRef token
  case isFalse =>
  split
  case isTrue =>
    refine h.module_bind fun m _ => ?_
    split
    case h_2 => exact h.unbound _
    case h_1 => exact h.bind (h.attributeType _) fun _ => h.keep _ _
  case isFalse => exact h.bind h.get fun tables => h.resolve tables token

/-! ## Members -/

theorem mergedMember (h : Steps T) {r : MemberRef} (hrow : T Token (externalMember l source r))
    (fault : Unbound) (steps : Nat) (t : Nat × TypeDef) :
    T Token (mergedMember l source r fault steps t) := by
  induction steps generalizing t with
  | zero => exact h.unbound _
  | succ steps ih =>
    obtain ⟨input, type⟩ := t
    rw [Importing.mergedMember]
    split
    case h_1 found _ => exact h.bind h.get fun tables => h.resolve tables found
    case h_2 =>
      split
      case h_1 => exact h.unbound _
      case h_2 =>
        split
        case h_1 next _ => exact ih next
        case h_2 => exact hrow

theorem memberRef (h : Steps T)
    (hrow : ∀ m, l.set.source? source = some m → ∀ r ∈ m.memberRefs, T Token (externalMember l source r))
    (token : Token) : T Token (memberRef l source token) := by
  refine h.known?_bind fun known => ?_
  split
  case h_1 => exact h.pure _
  case h_2 =>
  refine h.module_bind fun m hm => ?_
  split
  case h_2 => exact h.unbound _
  case h_1 row hfound =>
  have hexternal := hrow m hm row (List.mem_of_find?_eq_some hfound)
  dsimp only
  split
  case h_1 => exact h.bind (h.mergedMember hexternal _ _ _) fun _ => h.keep _ _
  case h_2 => exact h.bind hexternal fun _ => h.keep _ _

/-! ## All references -/

/-- A property of steps that reaching out for a member has is one of the whole import. -/
theorem importAll (h : Steps T) (plan : Plan)
    (hrow : ∀ source m, l.set.source? source = some m → ∀ r ∈ m.memberRefs,
      T Token (externalMember l source r)) :
    T (List Attribute) (Relocation.importAll l plan) := by
  refine h.bind (h.forM (fun entry => ?_) _) fun _ => h.mapM (fun planned => ?_) _
  · refine h.bind (h.forM (fun row => ?_) _) fun _ => h.forM (fun row => ?_) _
    · exact h.bind (h.typeRef _) fun _ => h.pure _
    · exact h.bind (h.memberRef (hrow _) _) fun _ => h.pure _
  · refine h.module_bind fun m _ => ?_
    split
    case h_1 => exact h.unbound _
    case h_2 => exact h.bind (h.type _) fun _ => h.pure _

end Steps

end Importing

end ModuleLinker
