import ModuleLinker.Text.Split

namespace ModuleLinker

/-! # Paths

A path keeps the text that it was given as, which is what messages show. Two paths are the same if
their parts are: repeated slashes, a slash at the end and single points inside make no difference.
-/

/-- A path of a file or a directory, as it is written. -/
structure Path where
  text : String
deriving DecidableEq, Repr, Inhabited

/-- A part of a path. -/
inductive PathPart where
  | root
  /-- A single point at the start of a relative path. -/
  | here
  /-- Two points, which lead to the directory around. -/
  | up
  | name (text : String)
deriving DecidableEq, Repr

namespace PathPart

/-- The place of a kind of part in the order of parts. -/
def rank : PathPart → Nat
  | root => 0
  | here => 1
  | up => 2
  | name _ => 3

/-- The text of a part that is a name. -/
def nameText : PathPart → String
  | name text => text
  | _ => ""

/-- Whether one part comes before another, names in the order of their characters. -/
def before (a b : PathPart) : Bool :=
  decide (a.rank < b.rank) || (a.rank == b.rank && decide (a.nameText < b.nameText))

/-- Whether parts come before others or are the same; the first difference decides. -/
def allBefore : List PathPart → List PathPart → Bool
  | [], _ => true
  | _ :: _, [] => false
  | a :: as, b :: bs => a.before b || (a == b && allBefore as bs)

/-- The part that a written name inside a path stands for, if any. -/
def ofText? (text : String) : Option PathPart :=
  if text.isEmpty || text == "." then none
  else if text == ".." then some up
  else some (name text)

/-- The written form of a part. -/
def text : PathPart → String
  | root => ""
  | here => "."
  | up => ".."
  | name text => text

end PathPart

namespace Path

/-- Whether nothing is written. -/
def isEmpty (p : Path) : Bool := p.text.isEmpty

/-- Whether there is a zero character, which no name of a file can have. -/
def hasZero (p : Path) : Bool := p.text.toList.contains '\x00'

/-- Whether the path starts at the root. -/
def isAbsolute (p : Path) : Bool := p.text.toList.head? == some '/'

/-- The texts between slashes. -/
def segments (p : Path) : List String := Text.split (· == '/') p.text

/-- The parts of the path. -/
def parts (p : Path) : List PathPart :=
  let inner := p.segments.filterMap PathPart.ofText?
  if p.isAbsolute then .root :: inner
  else if p.segments.head? == some "." then .here :: inner
  else inner

/-- Whether two paths have the same parts. -/
def agrees (p q : Path) : Bool := p.parts == q.parts

/-- Whether a path comes before another one or agrees with it. -/
def sortsBefore (p q : Path) : Bool := PathPart.allBefore p.parts q.parts

/-- The path of parts. -/
def ofParts (parts : List PathPart) : Path :=
  if parts = [.root] then ⟨"/"⟩ else ⟨"/".intercalate (parts.map PathPart.text)⟩

/-- The path `q` as seen from `p`; an absolute path stays as it is. -/
def join (p q : Path) : Path :=
  if q.isAbsolute then q
  else if p.isEmpty || p.text.toList.getLast? == some '/' then ⟨p.text ++ q.text⟩
  else ⟨p.text ++ "/" ++ q.text⟩

/-- A relative path made absolute from a directory. -/
def absoluteFrom (directory p : Path) : Path := if p.isAbsolute then p else directory.join p

/-- The path of the directory around; a root and an empty path have none. -/
def parent? (p : Path) : Option Path :=
  match p.parts.getLast? with
  | none | some .root => none
  | some _ => some (ofParts p.parts.dropLast)

/-! ## Extensions -/

/-- Takes slashes and single points off the end of a reversed path. -/
def dropTrailing : List Char → List Char
  | '/' :: rest => dropTrailing rest
  | '.' :: '/' :: rest => dropTrailing ('/' :: rest)
  | cs => cs

/-- A file name without its extension: what precedes the last point, unless nothing does. -/
def stemOf (name : String) : String :=
  match Text.cutLast? '.' name with
  | none => name
  | some (stem, _) => if stem.isEmpty then name else stem

/-- The path with the extension of its file name replaced; a path that ends with no name stays as
it is. -/
def withExtension (p : Path) (extension : String) : Path :=
  let reversed := p.text.toList.reverse
  let (name, front) := (dropTrailing reversed).span (· != '/')
  let name := String.ofList name.reverse
  let front := String.ofList front.reverse
  if (PathPart.ofText? name).all (· == .up) then p
  -- without their extension the two points at the start are no name either, and take no new one
  else if stemOf name == "." && dropTrailing reversed == reversed then ⟨front ++ ".."⟩
  else ⟨front ++ stemOf name ++ "." ++ extension⟩

end Path

end ModuleLinker
