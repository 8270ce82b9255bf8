import ModuleLinker.Text.Numeral

namespace ModuleLinker.Xml

/-! # Escaping

The five characters that mark up a document are written as entities, in texts and in attributes.
Reading knows these entities and numeric character references.
-/

/-- The characters with an entity, and its name. -/
def entities : List (Char × String) :=
  [('<', "lt"), ('>', "gt"), ('&', "amp"), ('\'', "apos"), ('"', "quot")]

/-- A character as it is written. -/
def escapeChar (c : Char) : List Char :=
  match entities.lookup c with
  | some name => '&' :: name.toList ++ [';']
  | none => [c]

/-- A text as it is written. -/
def escape (cs : List Char) : List Char := cs.flatMap escapeChar

/-- The character with a code point; the null character and surrogates are none. -/
def charOfCode? (code : Nat) : Option Char :=
  if h : code.isValidChar then if code = 0 then none else some (Char.ofNatAux code h) else none

/-- The character that a numeric reference stands for; its number carries no sign. -/
def charOfNumber? (radix : Nat) : List Char → Option Char
  | '+' :: _ => none
  | digits => ((Numeral.read radix 0xFFFFFFFF digits).toOption).bind charOfCode?

/-- The character that a reference stands for, given what is between `&` and `;`. -/
def charOfReference? : List Char → Option Char
  | '#' :: 'x' :: digits => charOfNumber? 16 digits
  | '#' :: digits => charOfNumber? 10 digits
  | name => (entities.find? fun e => e.2.toList == name).map (·.1)

/-- Reads a text. Between the `&` of a reference and its `;` there is no other `&`. `pending` holds
the characters of an unfinished reference in reverse. -/
def unescapeFrom : (pending : Option (List Char)) → List Char → Option (List Char)
  | none, [] => some []
  | some _, [] => none
  | none, c :: rest =>
    if c = '&' then unescapeFrom (some []) rest else (unescapeFrom none rest).map (c :: ·)
  | some pending, c :: rest =>
    if c = '&' then none
    else if c = ';' then do
      let r ← charOfReference? pending.reverse
      return r :: (← unescapeFrom none rest)
    else unescapeFrom (some (c :: pending)) rest

/-- Reads a written text; nothing if it has a reference that stands for no character. -/
def unescape? (cs : List Char) : Option (List Char) := unescapeFrom none cs

end ModuleLinker.Xml
