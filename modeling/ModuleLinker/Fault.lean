import ModuleLinker.Text.Utf8
import ModuleLinker.Token

namespace ModuleLinker

/-! # Faults

Everything that can stop a merge, as causes. A cause carries the data that its wording shows and
nothing else; the wording is one function of the cause, `Fault.message`.
-/

/-! ## Bytes and texts that are not well formed -/

/-- How bytes or a text fail to be what they are read as, or a value fails to have a written form. -/
inductive Malformation where
  | compressedLead (lead : UInt8)
  | compressedRange (value : UInt32)
  | sevenBitOverflow (bits : Nat)
  | notUtf8 (start stop : Nat) (fault : Utf8Fault)
  | countExceedsData (count remaining offset : Nat)
  | countRange (count : Nat)
  | elementType (code : UInt8) (offset : Nat)
  | instantiationBase (offset : Nat)
  | fieldForMethod
  | codedTable (token : Token)
  | codedTag (tag : Nat)
  | imageMagic
  | imageVersion (version : UInt16)
  | imageLength (payload length : Nat)
  | imageRange
  | imageTail (offset : Nat)
  | moduleKind (code : UInt8)
  | scopeTag (tag : UInt8)
  | strongNameTag (tag : UInt8)
  | valueTag (tag : UInt8)
  | operandTag (tag : UInt8)
  | handlerKind (code : UInt8)
  | nesting (limit offset : Nat)
  | symbolsMagic
  | symbolsVersion (version : UInt16)
  | symbolsOwner (name : String)
  | symbolsMethod (token : Token)
  | versionParts (version : String)
  | versionPart (part : String) (fault : NumeralFault)
  | emptyName
  | keyTokenLength (text : String)
  | keyTokenDigits (text : String) (fault : NumeralFault)
  | manifestCount (count : Nat)
  | keyTooShort
  | keyHash (algorithm : UInt32)
  | keySize (size actual : Nat)
  | keyAlgorithm (algorithm : UInt32) (blobType : UInt8)
  | keyMagic (magic : UInt32)
  | keyLength (bits : Nat)
  | xmlMarkup
  | xmlUnclosed (name : String)
  | xmlSecondRoot
  | xmlNoRoot
deriving DecidableEq, Repr

namespace Malformation

open Numeral

/-- The wording of a malformation. -/
def message : Malformation → String
  | compressedLead lead => s!"Invalid compressed uint - {lead}"
  | compressedRange value => s!"Value 0x{hex 8 value.toNat} too large for compressed encoding"
  | sevenBitOverflow bits =>
    s!"7-bit encoded integer overflow: value exceeds u32 capacity after {bits} bits"
  | notUtf8 start stop fault => s!"Invalid UTF-8 string at offset {start}-{stop}: {fault.message}"
  | countExceedsData count remaining offset =>
    s!"Element count {count} exceeds remaining {remaining} bytes at offset {offset}"
  | countRange count => s!"Count {count} too large"
  | elementType code offset =>
    s!"Unsupported element type 0x{hex 2 code.toNat} at offset {offset}"
  | instantiationBase offset => s!"Generic instantiation over non-type base at offset {offset}"
  | fieldForMethod => "Expected method signature, found field"
  | codedTable token =>
    s!"Invalid token table 0x{hex 2 token.table.toNat} for TypeDefOrRef coded index: {token}"
  | codedTag tag => s!"Unsupported TypeDefOrRef tag {tag}"
  | imageMagic => "Not a module image - invalid magic"
  | imageVersion version => s!"Unsupported image version {version}"
  | imageLength payload length =>
    s!"Image payload length {payload} does not match file length {length}"
  | imageRange => "Image exceeds 4 GiB"
  | imageTail offset => s!"Trailing data after module image at offset {offset}"
  | moduleKind code => s!"Invalid module kind {code}"
  | scopeTag tag => s!"Invalid resolution scope tag {tag}"
  | strongNameTag tag => s!"Invalid strong name tag {tag}"
  | valueTag tag => s!"Invalid attribute value tag {tag}"
  | operandTag tag => s!"Invalid operand tag {tag}"
  | handlerKind code => s!"Invalid exception handler kind {code}"
  | nesting limit offset => s!"Type nesting deeper than {limit} at offset {offset}"
  | symbolsMagic => "Not a symbol file - invalid magic"
  | symbolsVersion version => s!"Unsupported symbol file version {version}"
  | symbolsOwner name => s!"Symbol file does not belong to module '{name}'"
  | symbolsMethod token => s!"Symbol file references unknown method {token}"
  | versionParts version => s!"Too many version components in '{version}'"
  | versionPart part fault => s!"Invalid version component '{part}': {fault.message}"
  | emptyName => "Module name cannot be empty"
  | keyTokenLength text => s!"PublicKeyToken must be exactly 16 hex characters, got '{text}'"
  | keyTokenDigits text fault => s!"Invalid hex in PublicKeyToken '{text}': {fault.message}"
  | manifestCount count => s!"Manifest entry count {count} exceeds data"
  | keyTooShort => "Key blob is too short"
  | keyHash algorithm => s!"Unsupported strong-name hash algorithm 0x{hex 4 algorithm.toNat}"
  | keySize size actual => s!"Public key size {size} does not match blob size {actual}"
  | keyAlgorithm algorithm blobType =>
    s!"Unsupported key algorithm 0x{hex 8 algorithm.toNat} in blob type 0x{hex 2 blobType.toNat}"
  | keyMagic magic => s!"Unexpected RSA key magic 0x{hex 8 magic.toNat}"
  | keyLength bits => s!"Invalid RSA key length {bits}"
  | xmlMarkup => "Invalid XML"
  | xmlUnclosed name => s!"Unclosed element '{name}'"
  | xmlSecondRoot => "Document has more than one root element"
  | xmlNoRoot => "Document has no root element"

end Malformation

/-! ## References without a place in the output -/

/-- Why a reference of an input has no counterpart in the output. -/
inductive Unbound where
  | substitution (token : Token) (source : Nat)
  | tableFull (table : UInt8)
  | placement (name : String)
  | mergesLater (name : String)
  | sourceModule (source : Nat)
  | undeclaredType (fullName moduleName : String)
  | unemittedType (fullName moduleName : String)
  | typeReference (token : Token) (moduleName : String)
  | referenceChain (token : Token) (moduleName : String)
  | referenceRange (index : Nat) (moduleName : String)
  | typeToken (token : Token) (moduleName : String)
  | memberReference (token : Token) (moduleName : String)
  | member (name typeName : String)
  | plannedAttribute (index : Nat)
  | dangling (token : Token) (context : String)
  | missingReference (name : String) (index : Nat)
  | entryPoint (token : Token)
deriving DecidableEq, Repr

namespace Unbound

/-- The wording of a missing counterpart. -/
def message : Unbound → String
  | substitution token source => s!"No substitution for {token} of source module {source}"
  | tableFull table => s!"Table 0x{Numeral.hex 2 table.toNat} exceeds {Token.maxRow} rows"
  | placement name => s!"No placement for '{name}'"
  | mergesLater name => s!"'{name}' merges into a type emitted later"
  | sourceModule source => s!"Unknown source module {source}"
  | undeclaredType fullName moduleName =>
    s!"Type '{fullName}' is not declared in '{moduleName}'"
  | unemittedType fullName moduleName => s!"Type '{fullName}' of '{moduleName}' has no output token"
  | typeReference token moduleName => s!"Unknown type reference {token} in '{moduleName}'"
  | referenceChain token moduleName =>
    s!"Broken type reference chain at {token} in '{moduleName}'"
  | referenceRange index moduleName => s!"Reference index {index} out of range in '{moduleName}'"
  | typeToken token moduleName => s!"Unknown type {token} in '{moduleName}'"
  | memberReference token moduleName => s!"Unknown member reference {token} in '{moduleName}'"
  | member name typeName => s!"Member '{name}' not found on '{typeName}' or its merged base types"
  | plannedAttribute index => s!"Planned attribute {index} missing"
  | dangling token context => s!"Dangling reference {token} in {context}"
  | missingReference name index =>
    s!"Type reference '{name}' points at missing module reference {index}"
  | entryPoint token => s!"Entry point {token} is not a method definition"

end Unbound

/-! ## Settings that cannot be used -/

/-- Why a configuration cannot be used. -/
inductive Misconfiguration where
  | hashAlgorithm (algorithm : UInt32)
  | noInputs
  | emptyInput (index : Nat)
  | noOutput
  | twoKeys
  | blankPattern (index : Nat)
  | wildcard (pattern : String)
  | publicKeyOnly
  | keyContainer (name : String)
  | noDocuments
deriving DecidableEq, Repr

namespace Misconfiguration

/-- The wording of a configuration's defect. -/
def message : Misconfiguration → String
  | hashAlgorithm algorithm =>
    s!"unsupported hash algorithm 0x{Numeral.hex 4 algorithm.toNat}"
  | noInputs => "No input assemblies were specified"
  | emptyInput index => s!"Invalid assembly path on item index {index}"
  | noOutput => "No output file was specified"
  | twoKeys => "KeyFile and KeyContainer cannot be used together"
  | blankPattern index =>
    s!"Invalid internalize exclude pattern at item index {index}. Pattern cannot be blank."
  | wildcard pattern => s!"Invalid wildcard pattern '{pattern}'"
  | publicKeyOnly => "The key holds only a public key; enable delay signing to use it"
  | keyContainer name => s!"Key container '{name}' not found"
  | noDocuments => "No linker metadata documents to merge"

end Misconfiguration

/-! ## The file system -/

/-- Why a file operation is refused. -/
inductive FileFault where
  | notFound
  | isDirectory
  | notDirectory
  | alreadyExists
  | noDevice
  | nameTooLong
  | invalidArgument
  /-- A path has a zero character in it, so that it is not even shown to the operating system. -/
  | zeroInName
  /-- Any other refusal of the operating system, such as for want of permission or of space. -/
  | system (text : String) (code : Nat)
deriving DecidableEq, Repr

namespace FileFault

/-- The wording of a refusal. -/
def message : FileFault → String
  | notFound => "No such file or directory (os error 2)"
  | isDirectory => "Is a directory (os error 21)"
  | notDirectory => "Not a directory (os error 20)"
  | alreadyExists => "File exists (os error 17)"
  | noDevice => "No such device (os error 19)"
  | nameTooLong => "File name too long (os error 36)"
  | invalidArgument => "Invalid argument (os error 22)"
  | zeroInName => "file name contained an unexpected NUL byte"
  | system text code => s!"{text} (os error {code})"

end FileFault

/-! ## All faults -/

/-- A cause that stops a merge. -/
inductive Fault where
  /-- The file at `path` holds nothing. -/
  | emptyFile (path : String)
  /-- No input was given at all. -/
  | noModules
  /-- None of the given paths led to a file. -/
  | noFiles (paths : String)
  /-- An input or the attribute source is not there. -/
  | missingFile (path : String)
  /-- The image at `path` could not be read. -/
  | unreadable (path : String) (cause : Fault)
  /-- The module at `path` does not say what kind it is. -/
  | unspecifiedKind (path : String)
  /-- The module name at `path` is taken by the file `first`. -/
  | repeatedModule (path name first : String)
  /-- Two public types share a name once every policy has been applied. -/
  | conflict (name first second : String)
  /-- A reference has no counterpart in the output. -/
  | unbound (cause : Unbound)
  /-- A signature was asked of a key without private part. -/
  | unsignable (path : String)
  /-- The image has no room where a value has to be written. -/
  | noSlot (what : String)
  /-- A signature is not as long as its slot. -/
  | signatureLength (actual slot : Nat)
  /-- A file could not be written. -/
  | unwritable (path : String) (cause : FileFault)
  /-- A documentation file could not be read. -/
  | unreadableText (path : String) (cause : FileFault)
  /-- The settings cannot be used. -/
  | misconfigured (cause : Misconfiguration)
  /-- The key file could not be read. -/
  | unreadableKey (path : String) (cause : Fault)
  /-- The key file holds no key. -/
  | invalidKey (path : String) (cause : Fault)
  /-- Bytes or a text are not well formed. -/
  | malformed (cause : Malformation)
  /-- The bytes end too early. -/
  | outOfBounds
  /-- The file system refused an operation. -/
  | file (cause : FileFault)
  /-- An exclude pattern is no regular expression. -/
  | pattern
deriving DecidableEq, Repr

namespace Fault

/-- The area of work that a fault belongs to. -/
inductive Area where
  | resolution
  | conflict
  | reference
  | emission
  | configuration
  | malformed
  | outOfBounds
  | file
  | pattern
deriving DecidableEq, Repr

/-- The area of a fault. -/
def area : Fault → Area
  | emptyFile _ | noModules | noFiles _ | missingFile _ | unreadable .. | unspecifiedKind _
  | repeatedModule .. => .resolution
  | conflict .. => .conflict
  | unbound _ => .reference
  | unsignable _ | noSlot _ | signatureLength .. | unwritable .. | unreadableText .. => .emission
  | misconfigured _ | unreadableKey .. | invalidKey .. => .configuration
  | malformed _ => .malformed
  | outOfBounds => .outOfBounds
  | file _ => .file
  | pattern => .pattern

/-- The wording of a fault: its area's lead, then its cause. -/
def message : Fault → String
  | emptyFile path => s!"Unable to resolve '{path}': file is empty"
  | noModules => "Unable to resolve '': No input assemblies were given"
  | noFiles paths => s!"Unable to resolve '{paths}': No input assemblies were found"
  | missingFile path => s!"Unable to resolve '{path}': Unable to find input assembly"
  | unreadable path cause => s!"Unable to resolve '{path}': {cause.message}"
  | unspecifiedKind path =>
    s!"Unable to resolve '{path}': Module kind is unspecified; allow zero PE kinds to merge it"
  | repeatedModule path name first =>
    s!"Unable to resolve '{path}': Module '{name}' is already provided by '{first}'"
  | conflict name first second =>
    s!"Duplicate public type '{name}' in '{first}' and '{name}' in '{second}'"
  | unbound cause => s!"Reference rewrite failed - {cause.message}"
  | unsignable path =>
    s!"Emission failed - Key file '{path}' holds only a public key; use delay signing"
  | noSlot what => s!"Emission failed - {what} slot outside of the image"
  | signatureLength actual slot =>
    s!"Emission failed - Signature of {actual} bytes does not fit the {slot} byte slot"
  | unwritable path cause => s!"Emission failed - Unable to write '{path}': {cause.message}"
  | unreadableText path cause => s!"Emission failed - Unable to read '{path}': {cause.message}"
  | misconfigured cause => s!"Invalid configuration - {cause.message}"
  | unreadableKey path cause =>
    s!"Invalid configuration - Unable to read key file '{path}': {cause.message}"
  | invalidKey path cause => s!"Invalid configuration - Invalid key file '{path}': {cause.message}"
  | malformed cause => s!"Malformed - {cause.message}"
  | outOfBounds => "Out of Bound read would have occurred!"
  | file cause => cause.message
  | pattern => "Invalid internalize exclude pattern"

end Fault

end ModuleLinker
