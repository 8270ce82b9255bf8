import ModuleLinker.Attribute
import ModuleLinker.Body
import ModuleLinker.Flags

namespace ModuleLinker

/-! # Type definitions

Types with their members and the types nested in them. For every kind of member `tokens` lists
what it refers to, its own token left out, and `mapTokens` replaces its own token and then those.
-/

/-! ## Members -/

/-- A field of a type. -/
structure Field where
  token : Token
  name : String
  flags : FieldFlags
  signature : TypeSig
  attributes : List Attribute
deriving DecidableEq, Repr

namespace Field

/-- The tokens that a field refers to. -/
def tokens (x : Field) : List Token :=
  x.signature.tokens ++ Attribute.tokensOf x.attributes

/-- The field with each token replaced. -/
def mapTokens [Monad m] (f : Token → m Token) (x : Field) : m Field := do
  let token ← f x.token
  let signature ← x.signature.mapTokens f
  return { x with token, signature, attributes := ← x.attributes.mapM (Attribute.mapTokens f) }

end Field

/-- A method of a type; it has no body if it is abstract or provided by the runtime. -/
structure Method where
  token : Token
  name : String
  flags : MethodFlags
  signature : MethodSig
  body : Option MethodBody
  attributes : List Attribute
deriving DecidableEq, Repr

namespace Method

/-- The tokens that a method refers to. -/
def tokens (x : Method) : List Token :=
  x.signature.tokens ++ (x.body.map MethodBody.tokens).getD [] ++ Attribute.tokensOf x.attributes

/-- The method with each token replaced. -/
def mapTokens [Monad m] (f : Token → m Token) (x : Method) : m Method := do
  let token ← f x.token
  let signature ← x.signature.mapTokens f
  let body ← x.body.mapM (MethodBody.mapTokens f)
  return { x with
    token, signature, body, attributes := ← x.attributes.mapM (Attribute.mapTokens f) }

/-- The method without places in source texts. -/
def withoutPoints (x : Method) : Method :=
  { x with body := x.body.map MethodBody.withoutPoints }

end Method

/-- A property of a type; its accessors are methods of the type. -/
structure Property where
  token : Token
  name : String
  signature : TypeSig
  getter : Option Token
  setter : Option Token
  attributes : List Attribute
deriving DecidableEq, Repr

namespace Property

/-- The tokens that a property refers to. -/
def tokens (x : Property) : List Token :=
  x.signature.tokens ++ x.getter.toList ++ x.setter.toList ++ Attribute.tokensOf x.attributes

/-- The property with each token replaced. -/
def mapTokens [Monad m] (f : Token → m Token) (x : Property) : m Property := do
  let token ← f x.token
  let signature ← x.signature.mapTokens f
  let getter ← x.getter.mapM f
  let setter ← x.setter.mapM f
  return { x with
    token, signature, getter, setter
    attributes := ← x.attributes.mapM (Attribute.mapTokens f) }

end Property

/-- An event of a type; its accessors are methods of the type. -/
structure Event where
  token : Token
  name : String
  /-- The type of the event's handlers. -/
  eventType : Token
  add : Option Token
  remove : Option Token
  attributes : List Attribute
deriving DecidableEq, Repr

namespace Event

/-- The tokens that an event refers to. -/
def tokens (x : Event) : List Token :=
  x.eventType :: (x.add.toList ++ x.remove.toList ++ Attribute.tokensOf x.attributes)

/-- The event with each token replaced. -/
def mapTokens [Monad m] (f : Token → m Token) (x : Event) : m Event := do
  let token ← f x.token
  let eventType ← f x.eventType
  let add ← x.add.mapM f
  let remove ← x.remove.mapM f
  return { x with
    token, eventType, add, remove
    attributes := ← x.attributes.mapM (Attribute.mapTokens f) }

end Event

/-! ## Types -/

/-- A type with its members. -/
structure TypeDef where
  token : Token
  /-- The namespace; empty for nested types and outside every namespace. -/
  namespaceName : String
  name : String
  flags : TypeFlags
  /-- The base type. -/
  base : Option Token
  interfaces : List Token
  genericParams : List String
  fields : List Field
  methods : List Method
  properties : List Property
  events : List Event
  nested : List TypeDef
  attributes : List Attribute
deriving Repr, Inhabited

/-- A name inside a namespace. -/
def qualifiedName (namespaceName name : String) : String :=
  if namespaceName.isEmpty then name else s!"{namespaceName}.{name}"

namespace TypeDef

/-- The name of a top-level type with its namespace. -/
def qualifiedName (t : TypeDef) : String :=
  ModuleLinker.qualifiedName t.namespaceName t.name

/-- Whether the type is an interface. -/
def isInterface (t : TypeDef) : Bool := t.flags.contains .interface

/-- The method of the type with a token. -/
def method? (t : TypeDef) (token : Token) : Option Method :=
  t.methods.find? (·.token == token)

mutual

/-- A type whose full name is `fullName`, then the types nested in it at any depth, each with its
full name: `N.Outer/Inner`. -/
def walkFrom (fullName : String) : TypeDef → List (TypeDef × String)
  | t@⟨_, _, _, _, _, _, _, _, _, _, _, nested, _⟩ => (t, fullName) :: walkAll fullName nested

/-- The types nested in the type called `outer`, each followed by those nested in it. -/
def walkAll (outer : String) : List TypeDef → List (TypeDef × String)
  | [] => []
  | t :: rest => walkFrom s!"{outer}/{t.name}" t ++ walkAll outer rest

end

/-- A top-level type and all types nested in it, with their full names. -/
def walk (t : TypeDef) : List (TypeDef × String) := walkFrom t.qualifiedName t

/-- The tokens that a type refers to, itself and through its members; nested types are left
out. -/
def tokens (t : TypeDef) : List Token :=
  t.base.toList ++ t.interfaces ++ Attribute.tokensOf t.attributes ++
    t.fields.flatMap Field.tokens ++ t.methods.flatMap Method.tokens ++
    t.properties.flatMap Property.tokens ++ t.events.flatMap Event.tokens

/-- The tokens that a type and its members are known by. -/
def definedTokens (t : TypeDef) : List Token :=
  t.token :: (t.fields.map Field.token ++ t.methods.map Method.token ++
    t.properties.map Property.token ++ t.events.map Event.token)

mutual

/-- The type with every method, of nested types too, changed by `change`. -/
def mapMethods (change : Method → Method) : TypeDef → TypeDef
  | ⟨token, namespaceName, name, flags, base, interfaces, genericParams, fields, methods,
      properties, events, nested, attributes⟩ =>
    ⟨token, namespaceName, name, flags, base, interfaces, genericParams, fields,
      methods.map change, properties, events, mapMethodsAll change nested, attributes⟩

/-- Several types with every method changed by `change`. -/
def mapMethodsAll (change : Method → Method) : List TypeDef → List TypeDef
  | [] => []
  | t :: rest => mapMethods change t :: mapMethodsAll change rest

end

end TypeDef

end ModuleLinker
