import ModuleLinker.Fault
import ModuleLinker.Xml.Markup

namespace ModuleLinker.Xml

/-! # Reading documents

The tree of a document from its pieces. A document has one root element, and tags are nested;
text outside the root says nothing.
-/

/-- What has been read: the elements that are open, the innermost first, and the root once it is
complete. -/
structure Reading where
  stack : List Element
  root : Option Element
deriving DecidableEq, Repr

namespace Reading

/-- Adds a node to the innermost open element. -/
def addNode (r : Reading) (node : Node) : Reading :=
  match r.stack with
  | [] => r
  | e :: rest => { r with stack := { e with children := e.children ++ [node] } :: rest }

/-- Adds a text, unless it is empty. -/
def addText (r : Reading) (value : String) : Reading :=
  if value.isEmpty then r else r.addNode (.text value)

/-- Takes a complete element into the one around it, or as the root. -/
def complete (r : Reading) (e : Element) : Except Malformation Reading :=
  match r.stack, r.root with
  | _ :: _, _ => .ok (r.addNode e.toNode)
  | [], none => .ok { r with root := some e }
  | [], some _ => .error .xmlSecondRoot

/-- Takes the next piece of the document. -/
def step (r : Reading) : Markup → Except Malformation Reading
  | .opening name attributes => .ok { r with stack := ⟨name, attributes, []⟩ :: r.stack }
  | .empty name attributes => r.complete ⟨name, attributes, []⟩
  | .closing name =>
    match r.stack with
    | [] => .error .xmlMarkup
    | e :: rest =>
      if e.name = name then complete { r with stack := rest } e else .error .xmlMarkup
  | .text value => .ok (r.addText value)
  | .verbatim value => .ok (r.addText value)
  | .ignored => .ok r
  | .broken => .error .xmlMarkup

/-- The root of a document whose pieces have all been read. -/
def finish (r : Reading) : Except Malformation Element :=
  match r.stack, r.root with
  | e :: _, _ => .error (.xmlUnclosed e.name)
  | [], some root => .ok root
  | [], none => .error .xmlNoRoot

end Reading

/-- The root of the document that the characters spell. A byte order mark before it is no part of
the document. -/
def parseChars (cs : List Char) : Except Malformation Element := do
  let body := if cs.head? = some (Char.ofNat 0xFEFF) then cs.tail else cs
  let r ← (Markup.scan body).foldlM Reading.step ⟨[], none⟩
  r.finish

/-- The root of a document in UTF-8. -/
def parse (data : Bytes) : Except Fault Element :=
  match Utf8.decode data with
  | .error _ => .error (.malformed .xmlMarkup)
  | .ok s => (parseChars s.toList).mapError .malformed

end ModuleLinker.Xml
