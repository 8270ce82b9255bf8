import ModuleLinker.Text.Utf8
import ModuleLinker.Xml.Element
import ModuleLinker.Xml.Escape

namespace ModuleLinker.Xml

/-! # Writing documents

Elements stand on lines of their own, two blanks further in than the element around them. Around
texts nothing is added, so that the content of mixed elements stays as it is.
-/

namespace Writer

/-- A new line with the indentation of a depth. -/
def newLine (depth : Nat) : List Char := '\n' :: List.replicate (2 * depth) ' '

/-- The line break before a tag, unless a text precedes it. -/
def breakBefore (afterText : Bool) (depth : Nat) : List Char :=
  if afterText then [] else newLine depth

/-- An attribute after a blank. -/
def pair : Pair → List Char
  | (key, value) => ' ' :: key.toList ++ ['=', '"'] ++ escape value.toList ++ ['"']

/-- The name and the attributes of a tag. -/
def head (name : String) (attributes : List Pair) : List Char :=
  name.toList ++ attributes.flatMap pair

/-- Whether a content ends with a text. -/
def endsWithText (nodes : List Node) : Bool :=
  (nodes.getLast?.bind Node.text?).isSome

mutual

/-- A node at a depth, and what is written after it. -/
def node (depth : Nat) (afterText : Bool) : Node → (after : List Char) → List Char
  | .text value, after => escape value.toList ++ after
  | .element name attributes [], after =>
    breakBefore afterText depth ++ '<' :: (head name attributes ++ '/' :: '>' :: after)
  | .element name attributes (first :: rest), after =>
    let closing := '<' :: '/' :: (name.toList ++ '>' :: after)
    let content := nodes (depth + 1) false (first :: rest)
      (breakBefore (endsWithText (first :: rest)) depth ++ closing)
    breakBefore afterText depth ++ '<' :: (head name attributes ++ '>' :: content)

/-- Several nodes at a depth, one after another, and what is written after them. -/
def nodes (depth : Nat) (afterText : Bool) : List Node → (after : List Char) → List Char
  | [], after => after
  | n :: rest, after => node depth afterText n (nodes depth n.text?.isSome rest after)

end

/-- The declaration before the root. -/
def declaration : List Char := "<?xml version=\"1.0\" encoding=\"utf-8\"?>".toList

end Writer

/-- The document with a root, as text. -/
def render (root : Element) : String :=
  String.ofList (Writer.declaration ++ Writer.node 0 false root.toNode ['\n'])

/-- The document with a root, in UTF-8. -/
def write (root : Element) : Bytes := Utf8.encode (render root)

end ModuleLinker.Xml
