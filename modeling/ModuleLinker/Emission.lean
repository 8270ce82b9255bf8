import ModuleLinker.Image.Sidecar
import ModuleLinker.Manifest
import ModuleLinker.ModuleSet
import ModuleLinker.Plan.Basic
import ModuleLinker.SigningKey
import ModuleLinker.Xml.Documentation

namespace ModuleLinker

/-! # Emission

The last steps of a merge: the output gets its kind, its list of modules and its strong name, and is
written as an image. The version id is taken from the image itself, so that equal outputs have equal
ids; the signature covers the id.
-/

namespace Emission

/-! ## Finishing the module -/

/-- The module with what the options say about the output. -/
def finish (set : ModuleSet) (p : Policy) (signer : Option Signer) (m : Module) :
    Except Fault Module := do
  let manifest ←
    if p.options.omitManifest then pure [] else (Manifest.build set.inputs).map ([·])
  let m := if p.options.keepSymbols then m else m.withoutPoints
  return { m with
    kind := p.options.targetKind.resolve set.primary.module.kind
    platform := p.options.platform.getD m.platform
    resources := m.resources ++ manifest
    identity.strongName := signer.map fun s => .publicKey s.key.publicKey
    signature := signer.map fun s => List.replicate s.key.signatureLength 0 }

/-! ## Writing the image -/

/-- A module and the image that it is written as. -/
structure Written where
  module : Module
  image : Bytes
deriving Repr

/-- The module without version id and signature. -/
def blank (m : Module) : Module :=
  { m with mvid := .zero, signature := m.signature.map fun s => s.map fun _ => 0 }

/-- Writes a value over the bytes at an offset. -/
def patch (what : String) (image : Bytes) (offset : Nat) (value : Bytes) : Except Fault Bytes :=
  match Encoding.overwrite? image offset value with
  | some patched => .ok patched
  | none => .error (.noSlot what)

/-- Writes the version id: the first bytes of the digest of the image without it. -/
def writeMvid (m : Module) (image : Image) : Except Fault Written := do
  let mvid := Mvid.ofBytes (Sha1.digest image.bytes)
  return ⟨{ m with mvid }, ← patch "MVID" image.bytes image.mvidOffset mvid.bytes⟩

/-- Writes the signature into the room for it. -/
def writeSignature (signer : Signer) (w : Written) (offset length : Nat) : Except Fault Written := do
  let signature ← signer.sign w.image
  if signature.length ≠ length then throw (.signatureLength signature.length length)
  return ⟨{ w.module with signature := some signature },
    ← patch "Signature" w.image offset signature⟩

/-- Writes a module as an image, with its version id and, unless that is left for later, its
signature. -/
def encode (p : Policy) (signer : Option Signer) (m : Module) : Merging Written := do
  let m := blank m
  -- id and signature are blank here, so that the digest covers neither
  let image ← Merging.ofExcept (Image.ofModule m)
  let written ← Merging.ofExcept (writeMvid m image)
  match signer, image.signatureSlot with
  | some signer, some (offset, length) =>
    if p.options.delaySign then
      Logging.info "Delay signing: the signature slot is left empty"
      return written
    Merging.ofExcept (writeSignature signer written offset length)
  | _, _ => return written

/-! ## Files beside the image -/

/-- The documentation file beside an input, if there is one, and what became of the input's types. -/
def documentationOf (fs : FileSystem) (plan : Plan) (index : Nat) (l : LoadedModule) :
    Except Fault (Option Xml.DocumentationSource) :=
  let path := l.path.withExtension "xml"
  if fs.isFile path then
    match fs.read path with
    | .error cause => .error (.unreadableText path.text cause)
    | .ok data =>
      .ok (some ⟨data, plan.renamesOf index, l.module.types.map TypeDef.namespaceName⟩)
  else .ok none

/-- The merged documentation of the inputs, if some of them have any. -/
def documentation (fs : FileSystem) (set : ModuleSet) (plan : Plan) (m : Module) (output : Path) :
    Merging (Option (Path × Bytes)) := do
  let now ← Logging.files fs
  let found ← Merging.ofExcept
    (set.loadedInputs.zipIdx.mapM fun (l, index) => documentationOf now plan index l)
  let sources := found.filterMap id
  if sources.isEmpty then
    Logging.verbose "No XML documentation found next to the input assemblies"
    return none
  let merged ← Merging.ofExcept (Xml.mergeDocumentation m.name sources)
  Logging.verbose s!"Merged XML documentation of {sources.length} assemblies"
  return some (output.withExtension "xml", merged)

/-- The files of an output. -/
structure Files where
  module : Module
  image : Bytes
  output : Path
  symbols : Option (Path × Bytes)
  documentation : Option (Path × Bytes)
deriving Repr

namespace Files

/-- The files with their contents, the image first. -/
def toList (f : Files) : List (Path × Bytes) :=
  (f.output, f.image) :: (f.symbols.toList ++ f.documentation.toList)

end Files

/-- The files of an output, before any of them is written. -/
def files (fs : FileSystem) (set : ModuleSet) (p : Policy) (plan : Plan) (m : Module) :
    Merging Files := do
  let signer ← Signer.load fs p
  let output := p.resolve p.options.output
  let m ← Merging.ofExcept (finish set p signer m)
  let w ← encode p signer m
  let symbols ←
    if p.options.keepSymbols then do
      let data ← Merging.ofExcept (Sidecar.ofModule w.module)
      pure (some (output.withExtension "pdb", data))
    else pure none
  let docs ←
    if p.options.mergeDocumentation then documentation fs set plan w.module output else pure none
  return ⟨w.module, w.image, output, symbols, docs⟩

/-- Tells of the files that were written. -/
def announce (f : Files) : Logging Unit := do
  Logging.verbose s!"Wrote {f.image.length} bytes to '{f.output.text}'"
  match f.documentation with
  | some (path, _) => Logging.verbose s!"Wrote merged XML documentation to '{path.text}'"
  | none => return

end Emission

end ModuleLinker
