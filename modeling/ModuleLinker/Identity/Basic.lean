import ModuleLinker.Fault
import ModuleLinker.Identity.StrongName
import ModuleLinker.Text.Split

namespace ModuleLinker

/-! # Module identities

The name, version, culture and strong name by which modules refer to each other, and their
display name: `Library, Version=1.2.0.0, Culture=neutral, PublicKeyToken=null`. A version has four
numbers and is ordered like a four-digit numeral.
-/

/-! ## Versions -/

/-- The version of a module. -/
structure Version where
  major : UInt16
  minor : UInt16
  build : UInt16
  revision : UInt16
deriving DecidableEq, Repr, Inhabited

namespace Version

/-- The version of all zeros. -/
def zero : Version := ⟨0, 0, 0, 0⟩

/-- The four numbers. -/
def parts (v : Version) : List Nat :=
  [v.major.toNat, v.minor.toNat, v.build.toNat, v.revision.toNat]

/-- The order of two versions: the first numbers that differ decide. -/
def compare (a b : Version) : Ordering := compareLex (compareOn major)
    (compareLex (compareOn minor) (compareLex (compareOn build) (compareOn revision))) a b

/-- The version of up to four numbers; missing ones are zero. -/
def ofParts (parts : List UInt16) : Version :=
  ⟨parts.getD 0 0, parts.getD 1 0, parts.getD 2 0, parts.getD 3 0⟩

/-- The four numbers with points between them. -/
def text (v : Version) : String :=
  s!"{v.major}.{v.minor}.{v.build}.{v.revision}"

instance : ToString Version := ⟨text⟩

/-- Reads one number of a version, which may have blanks around it. -/
def parsePart (part : String) : Except Fault UInt16 :=
  match Numeral.read 10 0xFFFF (Text.trim part).toList with
  | .ok n => .ok (UInt16.ofNat n)
  | .error fault => .error (.malformed (.versionPart part fault))

/-- Reads the parts of the version `whole`, of which `room` may still come. -/
def parseParts (whole : String) : (room : Nat) → List String → Except Fault (List UInt16)
  | _, [] => .ok []
  | 0, _ :: _ => .error (.malformed (.versionParts whole))
  | room + 1, part :: rest => do
    let n ← parsePart part
    return n :: (← parseParts whole room rest)

/-- Reads one to four numbers with points between them. -/
def parse (s : String) : Except Fault Version :=
  return ofParts (← parseParts s 4 (Text.split (· == '.') s))

end Version

/-! ## Identities -/

/-- What a module is known by. -/
structure Identity where
  name : String
  version : Version
  /-- The culture of a module made for one; none is the neutral culture. -/
  culture : Option String
  strongName : Option StrongName
deriving DecidableEq, Repr

namespace Identity

/-- The identity of a module that is neither signed nor made for a culture. -/
def ofName (name : String) (version : Version) : Identity :=
  ⟨name, version, none, none⟩

/-- Whether two identities mean the same module. Strong names are left out, so that a reference
with a token agrees with a module that has the key. -/
def agrees (a b : Identity) : Bool :=
  a.name == b.name && a.version == b.version && a.culture == b.culture

/-- The token of the public key. -/
def keyToken? (i : Identity) : Option UInt64 :=
  i.strongName.map StrongName.tokenValue

/-- The identity in full. -/
def displayName (i : Identity) : String :=
  let culture := i.culture.getD "neutral"
  let token := (i.keyToken?.map StrongName.tokenText).getD "null"
  s!"{i.name}, Version={i.version}, Culture={culture}, PublicKeyToken={token}"

/-- Takes one part of a display name after the module's name into account. Parts of another form
say nothing about the identity. -/
def refine (i : Identity) (part : String) : Except Fault Identity :=
  match Text.after? "Version=" part with
  | some value => return { i with version := ← Version.parse value }
  | none =>
    match Text.after? "Culture=" part with
    | some value => .ok (if value == "neutral" then i else { i with culture := some value })
    | none =>
      match Text.after? "PublicKeyToken=" part with
      | some value =>
        if value == "null" || value.isEmpty then .ok i
        else return { i with strongName := some (.token (← StrongName.parseToken value)) }
      | none => .ok i

/-- Reads a display name: the module's name, then parts in any order, commas between them. -/
def parse (s : String) : Except Fault Identity :=
  match (Text.split (· == ',') s).map Text.trim with
  | [] => .error (.malformed .emptyName)
  | name :: parts =>
    if name.isEmpty then .error (.malformed .emptyName)
    else parts.foldlM refine (ofName name .zero)

end Identity

end ModuleLinker
