import ModuleLinker.Pattern.Input

namespace ModuleLinker

/-! # Escapes

What a backslash and the signs after it stand for: characters by their code points or by a letter,
classes, and places of a match. References to groups are refused, and so is every escape without a
meaning.
-/

namespace PatternReader

/-- What an escape or a single character stands for. -/
inductive Item where
  | literal (c : Char)
  | set (s : CharSet)
  | anchor (a : Anchor)

/-! ## Single characters -/

/-- Characters with a special meaning somewhere in a pattern. -/
def special : List Char := "\\.+*?()|[]\x7b\x7d^$#&-~".toList

/-- Whether a character without special meaning may be escaped all the same. -/
def mayBeEscaped (c : Char) : Bool :=
  special.contains c || (c.toNat < 0x80 && !c.isAlphanum && c != '<' && c != '>')

/-- The letters that stand for control characters. -/
def controls : List (Char × Char) :=
  [('a', '\x07'), ('f', '\x0c'), ('t', '\t'), ('n', '\n'), ('r', '\r'), ('v', '\x0b')]

/-- Whether a character is a hexadecimal digit. -/
def isHexDigit (c : Char) : Bool := (Numeral.digitValue? 16 c).isSome

/-- Takes a code point: `width` hexadecimal digits, or any number of them between braces. -/
def codePoint (width : Nat) : PatternReader Char := do
  skip
  let braces ← acceptSkip '\x7b'
  let digits ← if braces then takeAllSpaced isHexDigit else takeSpaced isHexDigit width
  if braces then
    expect '\x7d'
    skip
  else if digits.length < width then failure
  match Numeral.read 16 CharSet.maxCode digits with
  | .error _ => failure
  | .ok n =>
    -- two digits are a byte where characters are not meant
    let isByte := width == 2 && !braces && n > 0x7F && !(← settings).unicode
    if isByte || !decide n.isValidChar then failure
    return Char.ofNat n

/-! ## Classes -/

/-- The class that a letter stands for. -/
def classOf (letter : Char) : PatternReader CharSet := do
  let unicode := (← settings).unicode
  let set := match letter.toLower with
    | 'd' => if unicode then Text.digits else Text.asciiDigits
    | 's' => if unicode then Text.blanks else Text.asciiBlanks
    | _ => if unicode then Text.wordChars else Text.asciiWordChars
  if letter.isUpper then negated set else return set

/-- The set that the text between braces stands for: a property, or one and its value after a colon or
an equals sign. An exclamation mark before the latter asks for the other characters. -/
def namedSet (name : List Char) : PatternReader CharSet := do
  let (property, value) := name.span fun c => c != ':' && c != '='
  let excluded := property.getLast? == some '!' && value.head? == some '='
  let found := if value.isEmpty then Text.property? name
    else Text.propertyValue? (if excluded then property.dropLast else property) (value.drop 1)
  match found with
  | none => failure
  | some set =>
    let set ← withCases set
    return if excluded then set.complement else set

/-- Takes the name of a property, which is a letter alone or stands between braces. There are no
properties without Unicode. -/
def propertySet : PatternReader CharSet := do
  if !(← settings).unicode then failure
  skip
  if ← acceptSkip '\x7b' then
    let name ← takeAllSpaced (· != '\x7d')
    expect '\x7d'
    namedSet name
  else
    let letter ← next
    skip
    if letter == '\\' then failure
    namedSet [letter]

/-! ## Places at words -/

/-- The written names of places at words. -/
def edgeNames : List (String × WordEdge) :=
  [("start", .start), ("end", .stop), ("start-half", .startHalf), ("end-half", .stopHalf)]

/-- Takes the name of a place at words between braces, if one follows; what starts with no letter
and no hyphen is the limits of a repetition instead. -/
def namedEdge : PatternReader WordEdge := do
  let before ← get
  if !(← acceptSkip '\x7b') then return .any
  match ← peek with
  | none => failure
  | some c =>
    let inName := fun c : Char => c.isAlpha || c == '-'
    if !inName c then
      set before
      return .any
    let name ← takeAllSpaced inName
    expect '\x7d'
    match edgeNames.lookup (String.ofList name) with
    | some edge => return edge
    | none => failure

/-- The anchor of a place at words. -/
def wordAnchor (edge : WordEdge) : PatternReader Item := do
  let unicode := (← settings).unicode
  return .anchor (.word edge (if unicode then Text.wordChars else Text.asciiWordChars))

/-! ## All escapes -/

/-- Takes what follows a backslash. -/
def escape : PatternReader Item := do
  let c ← next
  match c with
  | 'x' => return .literal (← codePoint 2)
  | 'u' => return .literal (← codePoint 4)
  | 'U' => return .literal (← codePoint 8)
  | 'd' | 's' | 'w' | 'D' | 'S' | 'W' => return .set (← classOf c)
  | 'p' => return .set (← propertySet)
  | 'P' => return .set (← negated (← propertySet))
  | 'A' => return .anchor .textStart
  | 'z' => return .anchor .textEnd
  | 'b' => wordAnchor (← namedEdge)
  | 'B' => wordAnchor .neither
  | '<' => wordAnchor .start
  | '>' => wordAnchor .stop
  | _ =>
    match controls.lookup c with
    | some control => return .literal control
    | none => if mayBeEscaped c then return .literal c else failure

/-- Takes a character or an escape. -/
def item : PatternReader Item := do
  let c ← next
  if c == '\\' then escape else return .literal c

end PatternReader

end ModuleLinker
