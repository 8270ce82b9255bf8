import ModuleLinker.AttributeChoice
import ModuleLinker.Plan.Basic
import ModuleLinker.Relocation.Linkage
import ModuleLinker.Relocation.Substitution
import ModuleLinker.Token.Allocator

namespace ModuleLinker

/-! # Shapes of types

A shape is a type of the output before its tokens are replaced. It takes in the members of all types
that become one: members with the same key are one member, nested types of the same name are one
type, and tokens of what is left out are redirected to what is kept.
-/

/-- Something with the number of the module that it comes from. -/
structure Sourced (α : Type) where
  source : Nat
  value : α
deriving Repr

/-- A type of the output, its tokens still those of the inputs. -/
structure Shape where
  /-- The module of the type that the shape started from. -/
  source : Nat
  /-- The type that the shape started from. -/
  origin : TypeDef
  name : String
  flags : TypeFlags
  fields : List (Sourced Field)
  methods : List (Sourced Method)
  properties : List (Sourced Property)
  events : List (Sourced Event)
  interfaces : List (Sourced Token)
  attributes : List (Sourced Attribute)
  nested : List Shape
  /-- The keys of the members and the tokens of those that were kept. -/
  members : List (MemberKey × SourceToken)
  /-- The names of the interfaces. -/
  interfaceNames : List String
deriving Repr

/-- A token whose counterpart is that of another one. -/
structure Redirect where
  dropped : SourceToken
  kept : SourceToken
deriving DecidableEq, Repr

/-- A computation that leaves notices and redirects tokens. -/
abbrev Shaping := StateT (List Redirect) Logging

namespace Shape

/-- A shape without members for a type. -/
def ofType (source : Nat) (t : TypeDef) : Shape :=
  { source, origin := t, name := t.name, flags := t.flags, fields := [], methods := []
    properties := [], events := [], interfaces := [], attributes := [], nested := [], members := []
    interfaceNames := [] }

/-- The token of the type that the shape started from. -/
def key (s : Shape) : SourceToken := ⟨s.source, s.origin.token⟩

/-- Redirects a token to another one. -/
def redirect (dropped kept : SourceToken) : Shaping Unit := modify (· ++ [⟨dropped, kept⟩])

/-! ## Taking in a type -/

/-- The values of `xs` with a token, with the number of their module. -/
def pick (source : Nat) (token : Token) (tokenOf : α → Token) (xs : List α) : List (Sourced α) :=
  (xs.filter fun x => tokenOf x == token).map fun x => ⟨source, x⟩

/-- The shape with the members of a type that have a token. -/
def addMember (source : Nat) (t : TypeDef) (token : Token) (s : Shape) : Shape :=
  if token.table = Table.field then
    { s with fields := s.fields ++ pick source token Field.token t.fields }
  else if token.table = Table.method then
    { s with methods := s.methods ++ pick source token Method.token t.methods }
  else if token.table = Table.property then
    { s with properties := s.properties ++ pick source token Property.token t.properties }
  else { s with events := s.events ++ pick source token Event.token t.events }

/-- Takes in a member, or redirects its token if the shape has one with its key. -/
def takeMember (source : Nat) (t : TypeDef) (s : Shape) :
    MemberKey × Token → Shaping Shape
  | (key, token) => do
    match s.members.lookup key with
    | some kept =>
      redirect ⟨source, token⟩ kept
      return s
    | none =>
      return addMember source t token { s with members := s.members ++ [(key, ⟨source, token⟩)] }

/-- The shape with an interface, unless it has one of that name. -/
def takeInterface (source : Nat) (names : NameTable) (s : Shape) (token : Token) : Shape :=
  let name := names.name token
  if s.interfaceNames.contains name then s
  else { s with
    interfaceNames := name :: s.interfaceNames, interfaces := s.interfaces ++ [⟨source, token⟩] }

/-- The attributes of the shape with the names of their types. -/
def namedAttributes (l : Linkage) (s : Shape) : List NamedAttribute :=
  s.attributes.map fun a => ⟨(l.names a.source).name a.value.type, a.value⟩

/-- Takes in an attribute if it is not dropped and can stand beside those of the shape. -/
def takeAttribute (l : Linkage) (source : Nat) (s : Shape) (a : Attribute) : Logging Shape := do
  let name := (l.names source).name a.type
  if l.policy.drops name then
    Logging.verbose s!"Dropping attribute '{name}' of '{l.inputName source}'"
    return s
  if ← NamedAttribute.offer l.set l.policy (.input source) (namedAttributes l s) ⟨name, a⟩ then
    return { s with attributes := s.attributes ++ [⟨source, a⟩] }
  return s

/-- Takes in the members, interfaces and attributes of a type. -/
def takeParts (l : Linkage) (source : Nat) (t : TypeDef) (s : Shape) : Shaping Shape := do
  let names := l.names source
  let s ← (t.memberKeys names).foldlM (takeMember source t) s
  let s := t.interfaces.foldl (takeInterface source names) s
  t.attributes.foldlM (fun s a => takeAttribute l source s a) s

mutual

/-- Takes a type into a shape: its parts, and then the types nested in it. -/
def absorb (l : Linkage) (source : Nat) (s : Shape) : TypeDef → Shaping Shape
  | t@⟨_, _, _, _, _, _, _, _, _, _, _, nested, _⟩ => do
    let s ← takeParts l source t s
    return { s with nested := ← absorbNested l source s.nested nested }

/-- Takes nested types into the shapes of nested types: each into the first one of its name, or
into one of its own behind them. -/
def absorbNested (l : Linkage) (source : Nat) (shapes : List Shape) :
    List TypeDef → Shaping (List Shape)
  | [] => return shapes
  | t :: rest => do
    match (shapes.zipIdx.find? fun (s, _) => s.name == t.name) with
    | some (found, index) =>
      -- first the nested type itself, then what is in it
      redirect ⟨source, t.token⟩ found.key
      let found ← absorb l source found t
      absorbNested l source (shapes.set index found) rest
    | none =>
      let new ← absorb l source (.ofType source t) t
      absorbNested l source (shapes ++ [new]) rest

end

/-! ## The shapes of a merge -/

/-- The shapes made so far, with the places of the types that they started from. -/
abbrev PlacedShapes := List (Origin × Shape)

/-- The shapes with that of a place replaced. -/
def update (origin : Origin) (new : Shape) (shapes : PlacedShapes) : PlacedShapes :=
  shapes.map fun (other, s) => (other, if other = origin then new else s)

/-- Makes the shape of a type, or takes the type into the shape that its plan says. -/
def placeDeclaration (l : Linkage) (plan : Plan) (shapes : PlacedShapes) (d : Declaration) :
    ExceptT Fault Shaping PlacedShapes := do
  let source := d.origin.module
  match plan.placement? d.origin with
  | none => throw (.unbound (.placement d.name))
  | some (.emit name hide) =>
    let s ← absorb l source (.ofType source d.type) d.type
    let flags := if hide then s.flags.withVisibility .notPublic else s.flags
    return shapes ++ [(d.origin, { s with name, flags })]
  | some (.into target) =>
    match shapes.lookup target with
    | none => throw (.unbound (.mergesLater d.name))
    | some s =>
      redirect ⟨source, d.type.token⟩ s.key
      return update target (← absorb l source s d.type) shapes

/-- The shapes of all top-level types of the output, in the order of the types that they started
from. -/
def buildAll (l : Linkage) (plan : Plan) : ExceptT Fault Shaping (List Shape) :=
  return (← l.set.declarations.foldlM (placeDeclaration l plan) []).map (·.2)

/-! ## Tokens of shapes -/

/-- A computation that hands out tokens and keeps them as counterparts. -/
abbrev Numbering := ExceptT Fault (StateM (Substitution × Allocator))

/-- Hands out the next token of a table as the counterpart of a token. -/
def number (table : UInt8) (t : SourceToken) : Numbering Unit := do
  let (substitution, allocator) ← get
  match allocator.next table with
  | (.ok new, allocator) => set (substitution.insert t new, allocator)
  | (.error fault, _) => throw fault

mutual

/-- Hands out tokens for a shape, its members and then the shapes nested in it. -/
def allocate : Shape → Numbering Unit
  | ⟨source, origin, _, _, fields, methods, properties, events, _, _, nested, _, _⟩ => do
    number Table.typeDef ⟨source, origin.token⟩
    fields.forM fun x => number Table.field ⟨x.source, x.value.token⟩
    methods.forM fun x => number Table.method ⟨x.source, x.value.token⟩
    properties.forM fun x => number Table.property ⟨x.source, x.value.token⟩
    events.forM fun x => number Table.event ⟨x.source, x.value.token⟩
    allocateAll nested

/-- Hands out tokens for several shapes. -/
def allocateAll : List Shape → Numbering Unit
  | [] => return
  | s :: rest => do
    allocate s
    allocateAll rest

end

/-- The substitution with a token redirected. -/
def applyRedirect (s : Substitution) (r : Redirect) : Except Fault Substitution :=
  return s.insert r.dropped (← s.resolve r.kept.source r.kept.token)

/-- The substitution of all tokens of shapes and redirected tokens, and the allocator after it. -/
def substitution (shapes : List Shape) (redirects : List Redirect) :
    Except Fault (Substitution × Allocator) := do
  let (result, substitution, allocator) := (allocateAll shapes).run.run (.empty, .empty)
  result
  -- shapes and their members have their counterparts by now
  return (← redirects.foldlM applyRedirect substitution, allocator)

/-! ## Writing shapes -/

/-- The attributes of a member without those that are dropped; an attribute whose type has no name
cannot be named by the drop list. -/
def retained (l : Linkage) (source : Nat) (attributes : List Attribute) : List Attribute :=
  attributes.filter fun a =>
    match (l.set.inputs[source]?).bind fun m => m.typeName? a.type with
    | some name => !l.policy.drops name
    | none => true

mutual

/-- The type of a shape, every token replaced by its counterpart. -/
def write (l : Linkage) (sub : Substitution) : Shape → Except Fault TypeDef
  | ⟨source, origin, name, flags, fields, methods, properties, events, interfaces, attributes,
      nested, _, _⟩ => do
    let fields ← fields.mapM fun x =>
      { x.value with attributes := retained l x.source x.value.attributes }.mapTokens
        (sub.resolve x.source)
    let methods ← methods.mapM fun x =>
      { x.value with attributes := retained l x.source x.value.attributes }.mapTokens
        (sub.resolve x.source)
    let properties ← properties.mapM fun x =>
      { x.value with attributes := retained l x.source x.value.attributes }.mapTokens
        (sub.resolve x.source)
    let events ← events.mapM fun x =>
      { x.value with attributes := retained l x.source x.value.attributes }.mapTokens
        (sub.resolve x.source)
    let attributes ← attributes.mapM fun a => a.value.mapTokens (sub.resolve a.source)
    let token ← sub.resolve source origin.token
    let base ← origin.base.mapM (sub.resolve source)
    let interfaces ← interfaces.mapM fun i => sub.resolve i.source i.value
    let nested ← writeAll l sub nested
    return { token, namespaceName := origin.namespaceName, name, flags, base, interfaces
             genericParams := origin.genericParams, fields, methods, properties, events, nested
             attributes }

/-- The types of several shapes. -/
def writeAll (l : Linkage) (sub : Substitution) : List Shape → Except Fault (List TypeDef)
  | [] => return []
  | s :: rest => do
    let type ← write l sub s
    return type :: (← writeAll l sub rest)

end

end Shape

end ModuleLinker
