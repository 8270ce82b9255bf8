import ModuleLinker.Proofs.Module.Declaring
import ModuleLinker.Proofs.ModuleSet

namespace ModuleLinker

/-! # Calls of the builder

A module is built by calls in any order. A call asks for some rows, and what comes of it depends on them alone:
either one of them is refused, and its fault is kept, or the call is performed, and the new rows come behind those
that are there.
-/

/-! ## Calls -/

namespace ModuleBuilder

/-- A call of the builder. References to types are those of other modules, or nested in referenced types. -/
inductive Call where
  | setVersion (version : Version)
  | setStrongName (name : StrongName)
  | setPlatform (platform : String)
  | reference (identity : Identity)
  | typeRef (scope : Scope) (namespaceName name : String)
  | memberRef (parent : Token) (name : String) (signature : MemberSig)
  | addType (spec : TypeSpec)
  | methodToken (type : Token) (name : String)
  | addResource (name : String) (data : Bytes)
  | addAttribute (a : Attribute)
  | setEntryPoint (method : Token)

/-- What a call answers: nothing, the index of a referenced module, or a token. -/
inductive Answer where
  | nothing
  | index (i : UInt32)
  | token (t : Token)

/-- Makes a call. -/
def step (b : ModuleBuilder) : Call → Answer × ModuleBuilder
  | .setVersion version => (.nothing, b.setVersion version)
  | .setStrongName name => (.nothing, b.setStrongName name)
  | .setPlatform platform => (.nothing, b.setPlatform platform)
  | .reference identity => (b.reference identity).map .index id
  | .typeRef scope namespaceName name => (b.typeRef scope namespaceName name).map .token id
  | .memberRef parent name signature => (b.memberRef parent name signature).map .token id
  | .addType spec => (b.addType spec).map .token id
  | .methodToken type name => (((b.methodToken? type name).map .token).getD .nothing, b)
  | .addResource name data => (.nothing, b.addResource name data)
  | .addAttribute a => (.nothing, b.addAttribute a)
  | .setEntryPoint method => (.nothing, b.setEntryPoint method)

/-- Makes several calls, one after another. -/
def perform (b : ModuleBuilder) (calls : List Call) : ModuleBuilder :=
  calls.foldl (fun b call => (b.step call).2) b

/-- The builder of a module after some calls. -/
def after (name : String) (kind : ModuleKind) (calls : List Call) : ModuleBuilder :=
  (ofName name kind).perform calls

namespace Call

/-- Whether the call asks for a row, which is added if it has to be. -/
def asksForRow : Call → Bool
  | .reference _ | .typeRef .. | .memberRef .. | .addType _ => true
  | _ => false

/-- The tables of the rows that a call takes: a reference takes a row unless it is there, and a type takes its own
row, those of its members, and those of what is nested in it. -/
def tables (m : Module) : Call → List UInt8
  | .typeRef scope namespaceName name =>
    if (scope, namespaceName, name) ∈ m.typeRefs.map TypeRef.said then [] else [Table.typeRef]
  | .memberRef parent name signature =>
    if (parent, name, signature) ∈ m.memberRefs.map MemberRef.said then [] else [Table.memberRef]
  | .addType spec => spec.tables
  | _ => []

end Call

end ModuleBuilder

open ModuleBuilder

/-! ## What a call does -/

namespace Module

/-- The second module has the rows of the first one, and may differ from it otherwise. -/
structure SameRows (m m' : Module) : Prop where
  references : m'.references = m.references
  typeRefs : m'.typeRefs = m.typeRefs
  memberRefs : m'.memberRefs = m.memberRefs
  types : m'.types = m.types

namespace SameRows

variable {m m' : Module}

theorem allTypes (h : m.SameRows m') : m'.allTypes = m.allTypes :=
  congrArg (List.flatMap TypeDef.within) h.types

theorem definedTokens (h : m.SameRows m') : m'.definedTokens = m.definedTokens := by
  rw [definedTokens_eq, definedTokens_eq, h.allTypes, h.typeRefs, h.memberRefs]

end SameRows

end Module

/-- What a call that is refused no row makes of a module, with the tokens that it took. -/
inductive ModuleBuilder.Performs (m : Module) : Call → List Token → Answer → Module → Prop where
  | aside {call : Call} {m' : Module} (hcall : call.asksForRow = false) (h : m.SameRows m') :
      Performs m call [] .nothing m'
  | referenceFound {identity other : Identity} {i : Nat} (h : m.references[i]? = some other)
      (hother : other.agrees identity) : Performs m (.reference identity) [] (.index (.ofNat i)) m
  | referenceAdded {identity : Identity} (h : ∀ other ∈ m.references, other.agrees identity = false) :
      Performs m (.reference identity) [] (.index (.ofNat m.references.length))
        { m with references := m.references ++ [identity] }
  | typeRefFound {r : TypeRef} (h : r ∈ m.typeRefs) :
      Performs m (.typeRef r.scope r.namespaceName r.name) [] (.token r.token) m
  | typeRefAdded {r : TypeRef} (h : r.said ∉ m.typeRefs.map TypeRef.said) (htable : r.token.table = Table.typeRef) :
      Performs m (.typeRef r.scope r.namespaceName r.name) [r.token] (.token r.token)
        { m with typeRefs := m.typeRefs ++ [r] }
  | memberRefFound {r : MemberRef} (h : r ∈ m.memberRefs) :
      Performs m (.memberRef r.parent r.name r.signature) [] (.token r.token) m
  | memberRefAdded {r : MemberRef} (h : r.said ∉ m.memberRefs.map MemberRef.said)
      (htable : r.token.table = Table.memberRef) :
      Performs m (.memberRef r.parent r.name r.signature) [r.token] (.token r.token)
        { m with memberRefs := m.memberRefs ++ [r] }
  | type {spec : TypeSpec} {t : TypeDef} (h : spec.Declares t) (htabled : ∀ u ∈ t.within, u.Tabled) :
      Performs m (.addType spec) (t.within.flatMap TypeDef.definedTokens) (.token t.token)
        { m with types := m.types ++ [t] }
  | methodFound {token : Token} {name : String} {t : TypeDef} {x : Method} (ht : m.findType? token = some t)
      (hx : FirstNamed t.methods name x) : Performs m (.methodToken token name) [] (.token x.token) m

namespace ModuleBuilder

open Allocating

variable {b : ModuleBuilder} {call : Call} {tables : List UInt8}

/-- The fault of a row that is refused is kept, if it is the first one. Otherwise the call is performed. -/
def Settles (b : ModuleBuilder) (call : Call) : Prop :=
  match (rows (call.tables b.module)).run.run b.allocator with
  | (.ok tokens, allocator) => ∃ answer m', b.step call = (answer, { b with allocator, module := m' }) ∧
      Performs b.module call tokens answer m'
  | (.error fault, allocator) => ∃ answer,
      b.step call = (answer, { b with allocator, fault := b.fault.or (some fault) })

end ModuleBuilder

end ModuleLinker
