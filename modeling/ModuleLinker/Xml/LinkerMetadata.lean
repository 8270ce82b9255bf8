import ModuleLinker.Text.Split
import ModuleLinker.Xml.Reader
import ModuleLinker.Xml.Writer

namespace ModuleLinker.Xml

/-! # Linker metadata

Resources that tell a trimming linker what to keep. Several of them are merged into one: an
element goes into the element of the same name and key if there is one, and beside it otherwise.
-/

/-- Whether a resource of this name holds linker metadata: `ILLink.`, at least one character more,
and `.xml`. -/
def isLinkerMetadata (name : String) : Bool :=
  match (Text.after? "ILLink." name).bind (Text.before? ".xml") with
  | some kind => !kind.isEmpty
  | none => false

/-- The attributes that tell elements of the same name apart. -/
def keyNames : List String := ["fullname", "name", "signature"]

/-- The attributes among `attributes` that are part of an element's key. -/
def keyOf (attributes : List Pair) : List Pair :=
  attributes.filter fun pair => keyNames.contains pair.1

/-- The list with its first element that `f` changes changed. -/
def changeFirst? (f : α → Option α) : List α → Option (List α)
  | [] => none
  | a :: rest =>
    match f a with
    | some b => some (b :: rest)
    | none => (changeFirst? f rest).map (a :: ·)

mutual

/-- The content `nodes` with another node merged into it. -/
def mergeNode (nodes : List Node) : Node → List Node
  | .text _ => nodes
  | .element name attributes children =>
    if nodes.contains (.element name attributes children) then nodes
    else
      let key := keyOf attributes
      let into : Node → Option Node
        | .element other attrs inner =>
          if other = name ∧ keyOf attrs = key then
            some (.element other attrs (mergeNodes inner children))
          else none
        | .text _ => none
      if key.isEmpty then nodes ++ [.element name attributes children]
      else (changeFirst? into nodes).getD (nodes ++ [.element name attributes children])

/-- The content `nodes` with several other nodes merged into it, one after another. -/
def mergeNodes (nodes : List Node) : List Node → List Node
  | [] => nodes
  | n :: rest => mergeNodes (mergeNode nodes n) rest

end

/-- The element with the content of another one merged into its own. -/
def Element.merge (e other : Element) : Element :=
  { e with children := mergeNodes e.children other.children }

/-- Merges further documents into a root. -/
def mergeInto (root : Element) : List Bytes → Except Fault Element
  | [] => .ok root
  | document :: rest => do mergeInto (root.merge (← parse document)) rest

/-- The document that several documents merge to. -/
def mergeLinkerDocuments : List Bytes → Except Fault Bytes
  | [] => .error (.misconfigured .noDocuments)
  | first :: rest => return write (← mergeInto (← parse first) rest)

end ModuleLinker.Xml
