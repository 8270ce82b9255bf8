import ModuleLinker.Module.Basic
import ModuleLinker.Proofs.Bytes.ReadBack
import ModuleLinker.Proofs.Signature.WriteBack

namespace ModuleLinker

/-! # What an image keeps of a module

`canonical` is the module that comes back from an image. It differs in what the format has no form
for: places in source texts are gone, an optional token that is null is none, and so is a culture
whose name is empty. The reader also bounds how deep types are nested and takes named types only as
bases of instantiations, which `nesting` and `hasNamedBases` say of a module.
-/

namespace Identity

/-- The identity with the empty culture as the neutral one. -/
def canonical (i : Identity) : Identity :=
  { i with culture := i.culture.filter fun culture => !culture.isEmpty }

end Identity

/-! ## Members -/

namespace Handler

/-- The handler as it is read back. -/
def canonical (h : Handler) : Handler := { h with catchType := Token.orNone h.catchType }

end Handler

namespace MethodBody

/-- The body as it is read back. -/
def canonical (b : MethodBody) : MethodBody :=
  { b with handlers := b.handlers.map Handler.canonical, points := [] }

end MethodBody

namespace Method

/-- The method as it is read back. -/
def canonical (x : Method) : Method := { x with body := x.body.map MethodBody.canonical }

/-- Whether the signature and the locals have named types only as bases of instantiations. -/
def hasNamedBases (x : Method) : Bool :=
  x.signature.hasNamedBases &&
    x.body.all fun body => body.locals.all TypeSig.hasNamedBases

end Method

namespace Property

/-- The property as it is read back. -/
def canonical (x : Property) : Property :=
  { x with getter := Token.orNone x.getter, setter := Token.orNone x.setter }

end Property

namespace Event

/-- The event as it is read back. -/
def canonical (x : Event) : Event :=
  { x with add := Token.orNone x.add, remove := Token.orNone x.remove }

end Event

/-! ## Types -/

namespace TypeDef

mutual

/-- The type as it is read back, the types nested in it included. -/
def canonical : TypeDef → TypeDef
  | ⟨token, namespaceName, name, flags, base, interfaces, genericParams, fields, methods,
      properties, events, nested, attributes⟩ =>
    ⟨token, namespaceName, name, flags, Token.orNone base, interfaces, genericParams, fields,
      methods.map Method.canonical, properties.map Property.canonical,
      events.map Event.canonical, canonicalAll nested, attributes⟩

/-- Several types as they are read back. -/
def canonicalAll : List TypeDef → List TypeDef
  | [] => []
  | t :: rest => t.canonical :: canonicalAll rest

end

mutual

/-- The number of levels of types below a type. -/
def nesting : TypeDef → Nat
  | ⟨_, _, _, _, _, _, _, _, _, _, _, nested, _⟩ => nestingAll nested

/-- The number of levels that several types and the types below them make. -/
def nestingAll : List TypeDef → Nat
  | [] => 0
  | t :: rest => max (t.nesting + 1) (nestingAll rest)

end

mutual

/-- Whether all signatures in a type, of nested types too, have named types only as bases of
instantiations. -/
def hasNamedBases : TypeDef → Bool
  | ⟨_, _, _, _, _, _, _, fields, methods, properties, _, nested, _⟩ =>
    fields.all (·.signature.hasNamedBases) && methods.all Method.hasNamedBases &&
      properties.all (·.signature.hasNamedBases) && haveNamedBases nested

/-- Whether all signatures in several types have named types only as bases of instantiations. -/
def haveNamedBases : List TypeDef → Bool
  | [] => true
  | t :: rest => t.hasNamedBases && haveNamedBases rest

end

theorem canonicalAll_eq_map (ts : List TypeDef) : canonicalAll ts = ts.map canonical := by
  induction ts with
  | nil => rfl
  | cons t ts ih => rw [canonicalAll, ih, List.map_cons]

theorem nestingAll_le_iff {ts : List TypeDef} {depth : Nat} :
    nestingAll ts ≤ depth ↔ ∀ t ∈ ts, t.nesting < depth := by
  induction ts with
  | nil => simp [nestingAll]
  | cons t ts ih => rw [nestingAll, max_le_iff, ih, List.forall_mem_cons, Nat.succ_le_iff]

theorem haveNamedBases_eq_all (ts : List TypeDef) : haveNamedBases ts = ts.all hasNamedBases := by
  induction ts with
  | nil => rfl
  | cons t ts ih => rw [haveNamedBases, List.all_cons, ih]

/-- What the reader asks of a type, taken apart into what it asks of the parts. -/
theorem shape_iff (t : TypeDef) (depth : Nat) :
    t.hasNamedBases ∧ t.nesting < depth + 1 ↔
      (∀ x ∈ t.fields, x.signature.hasNamedBases) ∧ (∀ x ∈ t.methods, x.hasNamedBases) ∧
        (∀ x ∈ t.properties, x.signature.hasNamedBases) ∧
        ∀ u ∈ t.nested, u.hasNamedBases ∧ u.nesting < depth := by
  cases t
  simp only [hasNamedBases, haveNamedBases_eq_all, nesting, Nat.lt_succ_iff, nestingAll_le_iff,
    Bool.and_eq_true, List.all_eq_true, imp_and, forall_and, and_assoc]

end TypeDef

/-! ## Modules -/

namespace Module

/-- The module as it is read back from its image. -/
def canonical (m : Module) : Module :=
  { m with
    identity := m.identity.canonical
    references := m.references.map Identity.canonical
    types := m.types.map TypeDef.canonical
    entryPoint := Token.orNone m.entryPoint }

/-- Whether all signatures in a module have named types only as bases of instantiations. -/
def hasNamedBases (m : Module) : Bool :=
  m.types.all TypeDef.hasNamedBases && m.memberRefs.all (·.signature.hasNamedBases)

/-- What the reader asks of a module, taken apart into what it asks of the parts. -/
theorem shape_iff (m : Module) (depth : Nat) :
    (m.hasNamedBases ∧ ∀ t ∈ m.types, t.nesting ≤ depth) ↔
      (∀ r ∈ m.memberRefs, r.signature.hasNamedBases) ∧
        ∀ t ∈ m.types, t.hasNamedBases ∧ t.nesting < depth + 1 := by
  simp only [hasNamedBases, Bool.and_eq_true, List.all_eq_true, Nat.lt_succ_iff, imp_and, forall_and]
  tauto

end Module

end ModuleLinker
