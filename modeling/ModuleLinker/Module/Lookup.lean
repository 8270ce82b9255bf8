import ModuleLinker.Module.Basic

namespace ModuleLinker

/-! # Finding things in a module

Rows by token, types by token or full name, and the names of types. A row that is declared twice
is found at its first place.
-/

namespace Module

/-! ## Rows -/

/-- The type, nested or not, with a token. -/
def findType? (m : Module) (token : Token) : Option TypeDef :=
  (m.walk.find? fun entry => entry.1.token == token).map (·.1)

/-- The type, nested or not, with a full name. -/
def findTypeNamed? (m : Module) (fullName : String) : Option TypeDef :=
  (m.walk.find? fun entry => entry.2 == fullName).map (·.1)

/-- The method with a token. -/
def findMethod? (m : Module) (token : Token) : Option Method :=
  m.walk.findSome? fun entry => entry.1.method? token

/-- The type reference with a token. -/
def typeRef? (m : Module) (token : Token) : Option TypeRef :=
  m.typeRefs.find? (·.token == token)

/-- The member reference with a token. -/
def memberRef? (m : Module) (token : Token) : Option MemberRef :=
  m.memberRefs.find? (·.token == token)

/-! ## Names of types -/

/-- The full name of a type reference, searched for in at most `steps` steps along the references that
enclose it. A search that runs out of steps has no result. One that comes to a reference without a row has
one: there is no name. -/
def typeRefNameWithin (m : Module) : (steps : Nat) → Token → Option (Option String)
  | 0, _ => none
  | steps + 1, token =>
    match m.typeRef? token with
    | none => some none
    | some row =>
      match row.scope with
      | .enclosing outer =>
        if outer = token then some (some (qualifiedName row.namespaceName row.name))
        else (m.typeRefNameWithin steps outer).map (·.map fun outerName => s!"{outerName}/{row.name}")
      | _ => some (some (qualifiedName row.namespaceName row.name))

/-- Every search for the name of a type reference comes to an end. One that goes in a circle never does, and
neither does what asks for its name: that something answers is said only where names end. -/
def NamesEnd (m : Module) : Prop := ∀ token, ∃ steps, (m.typeRefNameWithin steps token).isSome

/-- The full name of a type reference: the names of the types that enclose it come first. A search that
comes to an end visits each row once at most, and it may end at a token without a row. One that runs out of
these steps goes in a circle and has no result. -/
def typeRefName? (m : Module) (token : Token) : Option String :=
  (m.typeRefNameWithin (m.typeRefs.length + 1) token).join

/-- The module that a type reference leads to in at most `steps` steps. -/
def targetWithin (m : Module) : (steps : Nat) → TypeRef → Option Identity
  | 0, _ => none
  | steps + 1, row =>
    match row.scope with
    | .reference index => m.references[index.toNat]?
    | .enclosing outer => (m.typeRef? outer).bind (m.targetWithin steps)
    | .here => none

/-- The module that a type reference leads to; none if it leads back into this one. -/
def typeRefTarget? (m : Module) (token : Token) : Option Identity :=
  (m.typeRef? token).bind (m.targetWithin m.typeRefs.length)

/-- The full name of a type, declared or referenced. -/
def typeName? (m : Module) (token : Token) : Option String :=
  if token.table = Table.typeDef then
    (m.walk.find? fun entry => entry.1.token == token).map (·.2)
  else if token.table = Table.typeRef then m.typeRefName? token
  else none

/-- The full name of a type, or its token where the module has no name for it. -/
def typeNameOrToken (m : Module) (token : Token) : String :=
  (m.typeName? token).getD token.text

/-- Whether an attribute type of this module permits several applications, if the module declares
the type and says so. -/
def attributeUsage? (m : Module) (fullName : String) : Option Bool := do
  let type ← m.findTypeNamed? fullName
  let usage ← type.attributes.find? fun a => m.typeName? a.type == some Attribute.usageType
  return usage.allowsMultiple

end Module

/-! ## Tables of names -/

/-- The full names of a module's types by token; the entry that was made last is the valid one. -/
structure NameTable where
  entries : List (Token × String)

namespace NameTable

/-- The name of a token, if it has one. -/
def name? (names : NameTable) (token : Token) : Option String :=
  names.entries.lookup token

/-- The name of a token, or the token itself as text. -/
def name (names : NameTable) (token : Token) : String :=
  (names.name? token).getD token.text

/-- The table with a name added, which replaces an older one. -/
def insert (names : NameTable) (token : Token) (name : String) : NameTable :=
  ⟨(token, name) :: names.entries.filter fun entry => entry.1 != token⟩

/-- The entries in the order of their tokens. -/
def sorted (names : NameTable) : List (Token × String) :=
  names.entries.mergeSort fun a b => decide (a.1.value ≤ b.1.value)

/-- The names of the types that a module declares, then of those that it refers to. -/
def ofModule (m : Module) : NameTable :=
  let declared := m.walk.foldl (fun names entry => names.insert entry.1.token entry.2) ⟨[]⟩
  m.typeRefs.foldl (fun names row =>
    match m.typeRefName? row.token with
    | some name => names.insert row.token name
    | none => names) declared

end NameTable

end ModuleLinker
