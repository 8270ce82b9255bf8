import ModuleLinker.Bytes.Encoding
import ModuleLinker.Bytes.Reader
import ModuleLinker.Module.Basic

namespace ModuleLinker

/-! # Manifests

A merged module lists the display names of the modules that it was made of in a resource. If one of
these was itself merged, its list takes the place of its resource: the entries follow its name.
-/

namespace Manifest

/-- The name of the resource with the list. -/
def resourceName : String := "Repack.List"

/-- The written form of a list: the number of entries, then their texts. -/
def encode (entries : List String) : Bytes :=
  Encoding.sevenBit (UInt32.ofNat entries.length) ++
    (entries.flatMap fun entry => (Encoding.text entry).bytes)

/-- Reads a list; bytes after it are passed over. -/
def reader : Reader (List String) := do
  let n := (← Reader.sevenBit).toNat
  -- an entry takes at least one byte
  if (← Reader.remaining) < n then Reader.refuse (.manifestCount n)
  Reader.times Reader.text n

/-- Reads a list. -/
def decode (data : Bytes) : Except Fault (List String) := reader.run data

/-- The list that a module carries, if it has one. -/
def ofModule (m : Module) : Except Fault (Option (List String)) :=
  match m.resources.find? (·.name == resourceName) with
  | none => .ok none
  | some resource => (decode resource.data).map some

/-- The entries for a module: its display name and the entries that it carries. -/
def entriesOf (m : Module) : Except Fault (List String) :=
  return m.identity.displayName :: (← ofModule m).getD []

/-- The list without repetitions; of equal entries the first one stays. -/
def distinct (entries : List String) : List String :=
  entries.foldl (fun kept entry => if kept.contains entry then kept else kept ++ [entry]) []

/-- The resource that lists the modules of a merge. -/
def build (modules : List Module) : Except Fault Resource := do
  let entries ← modules.mapM entriesOf
  return ⟨resourceName, .hidden, encode (distinct entries.flatten)⟩

end Manifest

end ModuleLinker
