import ModuleLinker.Module.Lookup
import ModuleLinker.Relocation.Substitution

namespace ModuleLinker

/-! # Reference closure

A module is closed if every token that it uses names something in it. Null tokens and string
literals name nothing and may be used freely.
-/

namespace Module

/-- The tokens that name something in the module. -/
def definedTokens (m : Module) : List Token :=
  m.walk.flatMap (·.1.definedTokens) ++ m.typeRefs.map TypeRef.token ++
    m.memberRefs.map MemberRef.token

/-- A use of a token, with the words for where it is used. -/
abbrev TokenUse := Token × String

/-- The tokens that types use. -/
def typeUses (m : Module) : List TokenUse :=
  m.walk.flatMap fun (type, fullName) => type.tokens.map fun t => (t, fullName)

/-- The tokens that member references use. -/
def memberUses (m : Module) : List TokenUse :=
  m.memberRefs.flatMap fun r => (r.parent :: r.signature.tokens).map fun t => (t, r.name)

/-- The tokens that the attributes of the module use. -/
def attributeUses (m : Module) : List TokenUse :=
  m.attributes.map fun a => (a.type, "assembly attributes")

/-- Refuses the use of a token that names nothing among `defined`. -/
def checkUse (defined : List Token) : TokenUse → Except Fault Unit
  | (t, context) =>
    if Substitution.isShared t || defined.contains t then .ok ()
    else .error (.unbound (.dangling t context))

/-- Refuses a type reference that leads nowhere. -/
def checkTypeRef (m : Module) (defined : List Token) (r : TypeRef) : Except Fault Unit :=
  match r.scope with
  | .reference index =>
    if m.references.length ≤ index.toNat then
      .error (.unbound (.missingReference r.name index.toNat))
    else .ok ()
  | .enclosing outer => checkUse defined (outer, r.name)
  | .here => .ok ()

/-- Refuses an entry point that is no method of the module. -/
def checkEntryPoint (m : Module) (defined : List Token) : Except Fault Unit :=
  match m.entryPoint with
  | none => .ok ()
  | some t =>
    if t.table ≠ Table.method then .error (.unbound (.entryPoint t))
    else checkUse defined (t, "entry point")

/-- Checks that the module is closed, and names the first use of a token that is not. -/
def checkClosed (m : Module) : Except Fault Unit := do
  let defined := m.definedTokens
  m.typeRefs.forM (checkTypeRef m defined)
  m.memberUses.forM (checkUse defined)
  m.typeUses.forM (checkUse defined)
  m.attributeUses.forM (checkUse defined)
  m.checkEntryPoint defined

end Module

end ModuleLinker
