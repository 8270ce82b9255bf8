import ModuleLinker.Image.Reader

namespace ModuleLinker

/-! # Symbol sidecars

The places in source texts that the code of a module comes from are kept in a file of their own
beside the image. The sidecar carries the version id of the module that it belongs to.
-/

namespace Sidecar

/-- The first bytes of a sidecar. -/
def magic : Bytes := [0x44, 0x52, 0x50, 0x44]

/-- The version of the format. -/
def version : UInt16 := 1

/-- The places of one method's code. -/
structure Entry where
  method : Token
  points : List SequencePoint
deriving DecidableEq, Repr

/-! ## Writing -/

/-- The entry of a method, if it has a body with places. -/
def entryOf? (x : Method) : Option Entry := do
  let body ← x.body
  if body.points.isEmpty then none else some ⟨x.token, body.points⟩

/-- The entries of a module in the order of its methods. -/
def entriesOf (m : Module) : List Entry :=
  m.walk.flatMap fun entry => entry.1.methods.filterMap entryOf?

/-- The written form of a place. -/
def encodePoint (p : SequencePoint) : Encoding :=
  .u32 p.offset ++ .text p.document ++ .u32 p.startLine ++ .u16 p.startColumn ++ .u32 p.endLine
    ++ .u16 p.endColumn

/-- The written form of an entry. -/
def encodeEntry (e : Entry) : Encoding := .token e.method ++ .list encodePoint e.points

/-- The written form of a module's sidecar. -/
def encode (m : Module) : Encoding :=
  .ofBytes magic ++ .u16 version ++ .ofBytes m.mvid.bytes ++ .list encodeEntry (entriesOf m)

/-- The sidecar of a module. -/
def ofModule (m : Module) : Except Fault Bytes := (encode m).result

/-! ## Reading -/

open Reader in
/-- Reads a place. -/
def decodePoint : Reader SequencePoint := return ⟨← u32, ← text, ← u32, ← u16, ← u32, ← u16⟩

open Reader in
/-- Reads an entry. -/
def decodeEntry : Reader Entry := return ⟨← token, ← list decodePoint⟩

open Reader in
/-- Reads the entries of the sidecar of module `m`; bytes after them are passed over. -/
def decode (m : Module) : Reader (List Entry) := do
  if (← bytes 4) != magic then refuse .symbolsMagic
  let found ← u16
  if found != version then refuse (.symbolsVersion found)
  if (← bytes 16) != m.mvid.bytes then refuse (.symbolsOwner m.name)
  list decodeEntry

/-! ## Attaching -/

/-- Entries with one entry a method; of several for the same method the last one counts. -/
def insert (entries : List Entry) (e : Entry) : List Entry :=
  e :: entries.filter fun other => other.method != e.method

/-- Gives a method the places of its entry and takes the entry off the list. The places of a
method without body are dropped. -/
def attachMethod (x : Method) (entries : List Entry) : Method × List Entry :=
  match entries.find? fun e => e.method == x.token with
  | none => (x, entries)
  | some e =>
    ({ x with body := x.body.map fun body => { body with points := e.points } },
      entries.filter fun other => other.method != x.token)

/-- Gives several methods their places, in order. -/
def attachMethods : List Method → List Entry → List Method × List Entry
  | [], entries => ([], entries)
  | x :: rest, entries =>
    let (x, entries) := attachMethod x entries
    let (rest, entries) := attachMethods rest entries
    (x :: rest, entries)

mutual

/-- Gives the methods of a type their places, and then those of the types nested in it. -/
def attachType : TypeDef → List Entry → TypeDef × List Entry
  | ⟨token, namespaceName, name, flags, base, interfaces, genericParams, fields, methods,
      properties, events, nested, attributes⟩, entries =>
    let (methods, entries) := attachMethods methods entries
    let (nested, entries) := attachTypes nested entries
    (⟨token, namespaceName, name, flags, base, interfaces, genericParams, fields, methods,
      properties, events, nested, attributes⟩, entries)

/-- Gives the methods of several types their places. -/
def attachTypes : List TypeDef → List Entry → List TypeDef × List Entry
  | [], entries => ([], entries)
  | t :: rest, entries =>
    let (t, entries) := attachType t entries
    let (rest, entries) := attachTypes rest entries
    (t :: rest, entries)

end

/-- The least token among those of the entries. -/
def leastMethod? (entries : List Entry) : Option Token :=
  (entries.map fun e => e.method.value).min?.map Token.mk

/-- Attaches a sidecar to its module. The module comes back with what could be attached, and with
the fault if the sidecar cannot be read or has an entry for no method. -/
def attach (m : Module) (data : Bytes) : Module × Option Fault :=
  match (decode m).run data with
  | .error fault => (m, some fault)
  | .ok entries =>
    let (types, left) := attachTypes m.types (entries.foldl insert [])
    let fault := (leastMethod? left).map fun token => .malformed (.symbolsMethod token)
    ({ m with types }, fault)

end Sidecar

end ModuleLinker
