import ModuleLinker.Module.Lookup
import ModuleLinker.Signature.Text

namespace ModuleLinker

/-! # Member keys and unions of types

What tells the members of a type apart, in a form that can be compared across modules: their kind,
their name and the canonical text of their signature.

Two types of the same name can become one if they are of the same kind, have the same base type and number
of generic parameters, no members of theirs conflict, and the types of the same name nested in them can
become one as well.
-/

/-- The key of a member inside its type. -/
inductive MemberKey where
  | field (name signature : String)
  | method (name : String) (hasThis : Bool) (signature : String)
  | property (name signature : String)
  | event (name type : String)
deriving DecidableEq, Repr

namespace MemberKey

/-- The name of the member. -/
def name : MemberKey → String
  | field name _ | method name _ _ | property name _ | event name _ => name

/-- Whether two members cannot stand in one type: they are no methods, and have the same kind and
name but different types. -/
def conflicts : MemberKey → MemberKey → Bool
  | field a x, field b y => a == b && x != y
  | property a x, property b y => a == b && x != y
  | event a x, event b y => a == b && x != y
  | _, _ => false

end MemberKey

/-- The canonical text of a type signature. -/
def NameTable.describe (names : NameTable) (s : TypeSig) : String := s.describe names.name

/-- The canonical text of a method signature. -/
def NameTable.describeMethod (names : NameTable) (s : MethodSig) : String := s.describe names.name

/-- The key of the member that a reference means. -/
def MemberRef.key (names : NameTable) (r : MemberRef) : MemberKey :=
  match r.signature with
  | .field s => .field r.name (names.describe s)
  | .method s => .method r.name s.hasThis (names.describeMethod s)

namespace TypeDef

/-- The keys of a type's members with their tokens, `names` being those of its module. -/
def memberKeys (names : NameTable) (t : TypeDef) : List (MemberKey × Token) :=
  t.fields.map (fun x => (.field x.name (names.describe x.signature), x.token)) ++
  t.methods.map (fun x =>
    (.method x.name x.signature.hasThis (names.describeMethod x.signature), x.token)) ++
  t.properties.map (fun x => (.property x.name (names.describe x.signature), x.token)) ++
  t.events.map fun x => (.event x.name (names.name x.eventType), x.token)

/-! ## Unions -/

/-- The base types of types whose values are no objects. -/
def valueBases : List String := ["System.ValueType", "System.Enum"]

/-- The name of the base type, as far as it has one. -/
def baseName? (m : Module) (t : TypeDef) : Option String := t.base.bind m.typeName?

/-- Whether the type is a value type. -/
def isValueType (m : Module) (t : TypeDef) : Bool := (t.baseName? m).any valueBases.contains

/-- Whether some members of two types conflict. -/
def membersConflict (lm rm : Module) (l r : TypeDef) : Bool :=
  let left := l.memberKeys (.ofModule lm)
  let right := r.memberKeys (.ofModule rm)
  right.any fun (b, _) => left.any fun (a, _) => a.conflicts b

/-- Whether two types fit together, leaving aside the types nested in them. -/
def fits (lm rm : Module) (l r : TypeDef) : Bool :=
  l.isInterface == r.isInterface && l.isValueType lm == r.isValueType rm &&
    l.genericParams.length == r.genericParams.length && l.baseName? lm == r.baseName? rm &&
    !membersConflict lm rm l r

mutual

/-- Whether a type of module `lm` and one of module `rm` can become one type. -/
def unites (lm rm : Module) (l : TypeDef) : TypeDef → Bool
  | r@⟨_, _, _, _, _, _, _, _, _, _, _, nested, _⟩ =>
    fits lm rm l r && unitesNested lm rm l.nested nested

/-- Whether each of some types can become one with the first of `left` that has its name. -/
def unitesNested (lm rm : Module) (left : List TypeDef) : List TypeDef → Bool
  | [] => true
  | r :: rest =>
    (match left.find? (·.name == r.name) with
      | some l => unites lm rm l r
      | none => true) && unitesNested lm rm left rest

end

end TypeDef

end ModuleLinker
