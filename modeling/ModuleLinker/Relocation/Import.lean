import ModuleLinker.Relocation.Linkage
import ModuleLinker.Relocation.Substitution
import ModuleLinker.Text.Split
import ModuleLinker.Token.Allocator

namespace ModuleLinker

/-! # Importing references

References of the inputs either mean something that is part of the output now, or go on meaning
something outside of it. The latter become rows of the output's tables, where equal rows are one.
-/

/-- The tables of the output while references are imported. -/
structure ImportTables where
  substitution : Substitution
  allocator : Allocator
  references : List Identity
  typeRefs : List TypeRef
  memberRefs : List MemberRef
deriving Repr

/-- A computation that imports references. -/
abbrev Importing := ExceptT Fault (StateM ImportTables)

namespace Importing

/-! ## Rows of the output -/

/-- Gives up because a reference has no counterpart. -/
def unbound (cause : Unbound) : Importing α := throw (.unbound cause)

/-- The module with a number. -/
def module (l : Linkage) (source : Nat) : Importing Module :=
  match l.set.source? source with
  | some m => return m
  | none => unbound (.sourceModule source)

/-- The counterpart of a token, if it has one by now. -/
def known? (t : SourceToken) : Importing (Option Token) := return (← get).substitution.get? t

/-- Sets the counterpart of a token. -/
def keep (t : SourceToken) (new : Token) : Importing Unit :=
  modify fun tables => { tables with substitution := tables.substitution.insert t new }

/-- Takes the next token of a table. -/
def fresh (table : UInt8) : Importing Token := do
  let tables ← get
  match tables.allocator.next table with
  | (.ok token, allocator) =>
    set { tables with allocator }
    return token
  | (.error fault, _) => throw fault

/-- The index of a referenced module, which is added if none agrees with it. -/
def reference (identity : Identity) : Importing UInt32 := do
  let references := (← get).references
  match references.findIdx? (·.agrees identity) with
  | some index => return UInt32.ofNat index
  | none =>
    modify fun tables => { tables with references := references ++ [identity] }
    return UInt32.ofNat references.length

/-- The token of a type reference, which is added if it is not there. -/
def typeRefRow (scope : Scope) (namespaceName name : String) : Importing Token := do
  let found := (← get).typeRefs.find? fun row =>
    row.scope == scope && row.namespaceName == namespaceName && row.name == name
  match found with
  | some row => return row.token
  | none =>
    let token ← fresh Table.typeRef
    modify fun tables =>
      { tables with typeRefs := tables.typeRefs ++ [⟨token, scope, namespaceName, name⟩] }
    return token

/-- The token of a member reference, which is added if it is not there. -/
def memberRefRow (parent : Token) (name : String) (signature : MemberSig) : Importing Token := do
  let found := (← get).memberRefs.find? fun row =>
    row.parent == parent && row.name == name && row.signature == signature
  match found with
  | some row => return row.token
  | none =>
    let token ← fresh Table.memberRef
    modify fun tables =>
      { tables with memberRefs := tables.memberRefs ++ [⟨token, parent, name, signature⟩] }
    return token

/-! ## Types -/

/-- The counterpart of the type of an input with a full name. -/
def definition (l : Linkage) (input : Nat) (fullName : String) : Importing Token := do
  let m ← module l input
  match m.findTypeNamed? fullName with
  | none => unbound (.undeclaredType fullName m.name)
  | some type =>
    match ← known? ⟨input, type.token⟩ with
    | some token => return token
    | none => unbound (.unemittedType fullName m.name)

/-- References to types nested one in the other, from the outer one on. -/
def enclosedRows (outer : Token) : List String → Importing Token
  | [] => return outer
  | name :: rest => do enclosedRows (← typeRefRow (.enclosing outer) "" name) rest

/-- A reference to a type of the module that attributes are taken from. -/
def attributeType (l : Linkage) (fullName : String) : Importing Token := do
  let m ← module l l.set.inputs.length
  -- the module may be an input as well; then its types are part of the output
  match l.set.inputIndex? m.name with
  | some input => definition l input fullName
  | none =>
    let index ← reference m.identity
    match Text.split (· == '/') fullName with
    | [] => return .null
    | outer :: inner =>
      let (namespaceName, name) := (Text.cutLast? '.' outer).getD ("", outer)
      enclosedRows (← typeRefRow (.reference index) namespaceName name) inner

/-- The input that a type reference leads to, if it leads to one. -/
def inputOf? (l : Linkage) (source : Nat) (target : Option Identity) : Option Nat :=
  match target with
  | some identity => l.set.inputIndex? identity.name
  | none => if l.set.isInput source then some source else none

/-- The counterpart of a type reference. `enclosing` gives those of the references that types are
nested in; without it, the chain of references has been followed too far. -/
def typeRefFrom (l : Linkage) (source : Nat) (enclosing : Option (Token → Importing Token))
    (token : Token) : Importing Token := do
  if let some known ← known? ⟨source, token⟩ then return known
  let m ← module l source
  let some row := m.typeRef? token | unbound (.typeReference token m.name)
  let some fullName := m.typeRefName? token | unbound (.referenceChain token m.name)
  let target := m.typeRefTarget? token
  let resolved ←
    match inputOf? l source target with
    | some input => definition l input fullName
    | none =>
      match target, row.scope with
      -- the chain ends in the module itself, the one that attributes are taken from
      | none, _ => attributeType l fullName
      | some _, .reference index =>
        match m.references[index.toNat]? with
        | none => unbound (.referenceRange index.toNat m.name)
        | some identity =>
          typeRefRow (.reference (← reference identity)) row.namespaceName row.name
      | some _, .enclosing outer =>
        match enclosing with
        | some enclosing => do
          typeRefRow (.enclosing (← enclosing outer)) row.namespaceName row.name
        | none => unbound (.referenceChain token m.name)
      | some _, .here => definition l source fullName
  keep ⟨source, token⟩ resolved
  return resolved

/-- The counterpart of a type reference; a chain of at most `steps` enclosing references leads to
its module. -/
def typeRefWithin (l : Linkage) (source : Nat) : (steps : Nat) → Token → Importing Token
  | 0 => typeRefFrom l source none
  | steps + 1 => typeRefFrom l source (some (typeRefWithin l source steps))

/-- The counterpart of a type reference. A chain without repetition has no more steps than the
module has references. -/
def typeRef (l : Linkage) (source : Nat) (token : Token) : Importing Token := do
  let m ← module l source
  typeRefWithin l source m.typeRefs.length token

/-- The counterpart of a token that stands for a type. -/
def type (l : Linkage) (source : Nat) (token : Token) : Importing Token := do
  if let some known ← known? ⟨source, token⟩ then return known
  if token.table = Table.typeRef then typeRef l source token
  else if token.table = Table.typeDef ∧ ¬ l.set.isInput source then
    let m ← module l source
    let some fullName := m.typeName? token | unbound (.typeToken token m.name)
    let resolved ← attributeType l fullName
    keep ⟨source, token⟩ resolved
    return resolved
  else
    match (← get).substitution.resolve source token with
    | .ok resolved => return resolved
    | .error fault => throw fault

/-! ## Members -/

/-- The type of an input that a token stands for, with the number of the input. -/
def inputType? (l : Linkage) (source : Nat) (token : Token) : Option (Nat × TypeDef) :=
  if token.table = Table.typeDef then do
    if !l.set.isInput source then none
    let m ← l.set.inputs[source]?
    return (source, ← m.findType? token)
  else if token.table = Table.typeRef then do
    let m ← l.set.source? source
    let input ← inputOf? l source (m.typeRefTarget? token)
    let fullName ← m.typeRefName? token
    let target ← l.set.inputs[input]?
    return (input, ← target.findTypeNamed? fullName)
  else none

/-- The counterpart of a reference to a member outside of the output. -/
def externalMember (l : Linkage) (source : Nat) (r : MemberRef) : Importing Token := do
  let parent ← type l source r.parent
  let signature ← r.signature.mapTokens (type l source)
  memberRefRow parent r.name signature

/-- The number of types that are searched for a member. -/
def searchDepth : Nat := 64

/-- The counterpart of a reference to a member of a type of an input: the member of the type or of
the nearest base type that has it. Where the base types leave the inputs, so does the reference. -/
def mergedMember (l : Linkage) (source : Nat) (r : MemberRef) (fault : Unbound) :
    (steps : Nat) → Nat × TypeDef → Importing Token
  | 0, _ => unbound fault
  | steps + 1, (input, t) => do
    match (t.memberKeys (l.names input)).lookup (r.key (l.names source)) with
    | some found =>
      match (← get).substitution.resolve input found with
      | .ok token => return token
      | .error fault => throw fault
    | none =>
      match t.base with
      | none => unbound fault
      | some base =>
        match inputType? l input base with
        -- the base type is an input's too, so the search goes on there
        | some next => mergedMember l source r fault steps next
        | none => externalMember l source r

/-- The counterpart of a member reference. -/
def memberRef (l : Linkage) (source : Nat) (token : Token) : Importing Token := do
  if let some known ← known? ⟨source, token⟩ then return known
  let m ← module l source
  let some row := m.memberRef? token | unbound (.memberReference token m.name)
  let resolved ←
    match inputType? l source row.parent with
    | some (input, t) =>
      let fault := Unbound.member row.name ((l.names input).name t.token)
      mergedMember l source row fault searchDepth (input, t)
    | none => externalMember l source row
  keep ⟨source, token⟩ resolved
  return resolved

end Importing

end ModuleLinker
