import ModuleLinker.Text.Split
import ModuleLinker.Xml.Reader
import ModuleLinker.Xml.Writer

namespace ModuleLinker.Xml

/-! # Documentation files

A documentation file lists comments by the ids of the members that they are about:
`M:N.T.F(System.Int32)`. Files of merged modules become one file. Ids follow the types that were
renamed, and of several comments with the same id the first one is kept.
-/

/-- A documentation file, and what became of the types of its module. -/
structure DocumentationSource where
  data : Bytes
  /-- The renamed top-level types: old and new qualified names. -/
  renames : List (String × String)
  /-- The namespaces in which the module declares types. -/
  namespaces : List String
deriving DecidableEq, Repr

/-- Whether a text starts with a point. -/
def startsWithPoint (s : String) : Bool := s.toList.head? == some '.'

/-- Whether the name `rest`, which starts with a type's name, lies in a namespace that is called
like the type or lies below it. -/
def inNamespaceBelow (rest typeName : String) (namespaces : List String) : Bool :=
  namespaces.any fun ns =>
    (Text.after? typeName ns).any (fun below => below.isEmpty || startsWithPoint below)
      && (Text.after? ns rest).any startsWithPoint

/-- The new name of `rest` if it is the renamed type `old` or part of it. -/
def renamed? (rest : String) (namespaces : List String) : String × String → Option String
  | (old, new) => do
    let tail ← Text.after? old rest
    let whole := tail.isEmpty || tail.toList.head? == some '('
    let inner := startsWithPoint tail && !inNamespaceBelow rest old namespaces
    if whole || inner then some (new ++ tail) else none

/-- The id of a member after renames; the first rename that concerns it counts. -/
def renameMemberId (id : String) (renames : List (String × String)) (namespaces : List String) :
    String :=
  match Text.cutFirst? ':' id with
  | none => id
  | some (kind, rest) =>
    match renames.findSome? (renamed? rest namespaces) with
    | some new => s!"{kind}:{new}"
    | none => id

/-- The members kept so far and their ids. -/
structure DocumentationMembers where
  seen : List String
  kept : List Element
deriving DecidableEq, Repr

namespace DocumentationMembers

/-- Takes one member of a file; a member without id is always kept. -/
def offer (source : DocumentationSource) (members : DocumentationMembers) (member : Element) :
    DocumentationMembers :=
  match member.attribute? "name" with
  | none => { members with kept := members.kept ++ [member] }
  | some id =>
    let id := renameMemberId id source.renames source.namespaces
    if members.seen.contains id then members
    else ⟨id :: members.seen, members.kept ++ [member.setAttribute "name" id]⟩

/-- Takes the members of a file. -/
def offerAll (members : DocumentationMembers) (source : DocumentationSource) :
    Except Fault DocumentationMembers := do
  let root ← parse source.data
  match root.child? "members" with
  | none => return members
  | some list =>
    return (list.elements.filter (·.name == "member")).foldl (offer source) members

end DocumentationMembers

/-- The tree of a documentation file for `assembly`. -/
def documentationTree (assembly : String) (members : List Element) : Element :=
  let name := Element.ofChildren "name" [.text assembly]
  .ofChildren "doc" [
    (Element.ofChildren "assembly" [name.toNode]).toNode,
    (Element.ofChildren "members" (members.map Element.toNode)).toNode]

/-- The documentation file for `assembly` that several files merge to. -/
def mergeDocumentation (assembly : String) (sources : List DocumentationSource) :
    Except Fault Bytes := do
  let members ← sources.foldlM DocumentationMembers.offerAll ⟨[], []⟩
  return write (documentationTree assembly members.kept)

end ModuleLinker.Xml
