import ModuleLinker.Text.Split
import ModuleLinker.Xml.Element
import ModuleLinker.Xml.Escape

namespace ModuleLinker.Xml

/-! # Markup

A document as a sequence of tags and texts. Texts are trimmed of white space at both ends before
their references are read, and texts of white space alone are left out. A document may break off
in the middle of its markup; what comes before is still read.
-/

/-- A piece of a document. -/
inductive Markup where
  /-- A start tag. -/
  | opening (name : String) (attributes : List Pair)
  /-- A tag that is start and end in one. -/
  | empty (name : String) (attributes : List Pair)
  /-- An end tag. -/
  | closing (name : String)
  | text (value : String)
  /-- Text that is taken as it is. -/
  | verbatim (value : String)
  /-- A comment, a processing instruction, a declaration or a document type. -/
  | ignored
  /-- The document is not well formed from here on. -/
  | broken
deriving DecidableEq, Repr

namespace Markup

/-- White space in markup. -/
def isSpace (c : Char) : Bool := c == ' ' || c == '\t' || c == '\r' || c == '\n'

/-- A quotation mark. -/
def isQuote (c : Char) : Bool := c == '"' || c == '\''

/-! ## Ends of markup -/

/-- What comes before and after the first place where `mark` occurs. -/
def cutAt? (mark : List Char) : List Char → Option (List Char × List Char)
  | [] => none
  | c :: rest =>
    match mark.isPrefixOf? (c :: rest) with
    | some after => some ([], after)
    | none => (cutAt? mark rest).map fun (front, after) => (c :: front, after)

/-- What comes before and after the `>` that ends a tag; between quotation marks it ends none. -/
def cutTag? : (quote : Option Char) → List Char → Option (List Char × List Char)
  | _, [] => none
  | none, c :: rest =>
    if c = '>' then some ([], rest)
    else
      (cutTag? (if isQuote c then some c else none) rest).map fun (front, after) =>
        (c :: front, after)
  | some q, c :: rest =>
    (cutTag? (if c = q then none else some q) rest).map fun (front, after) => (c :: front, after)

/-- What comes before and after the `>` that ends a document type, in which `depth` pairs of angle
brackets are open. -/
def cutDoctype? : (depth : Nat) → List Char → Option (List Char × List Char)
  | _, [] => none
  | depth, '<' :: rest =>
    (cutDoctype? (depth + 1) rest).map fun (front, after) => ('<' :: front, after)
  | 0, '>' :: rest => some ([], rest)
  | depth + 1, '>' :: rest =>
    (cutDoctype? depth rest).map fun (front, after) => ('>' :: front, after)
  | depth, c :: rest => (cutDoctype? depth rest).map fun (front, after) => (c :: front, after)

/-! ## Tags -/

/-- Reads at most `n` attributes: keys, equal signs and values in quotation marks. -/
def attributesWithin? : (n : Nat) → List Char → Option (List (List Char × List Char))
  | 0, _ => some []
  | n + 1, cs =>
    match cs.dropWhile isSpace with
    | [] => some []
    | c :: rest =>
      -- a key has at least one character, whichever it is
      let (key, rest) := rest.span fun x => x != '=' && !isSpace x
      match rest.dropWhile isSpace with
      | '=' :: rest =>
        match rest.dropWhile isSpace with
        | [] => none
        | q :: rest =>
          let (value, rest) := rest.span (· != q)
          match rest with
          | [] => none
          | _ :: rest =>
            if isQuote q then do
              let value ← unescape? value
              return (c :: key, value) :: (← attributesWithin? n rest)
            else none
      | _ => none

/-- Reads the attributes of a tag; no two have the same key. -/
def attributes? (cs : List Char) : Option (List Pair) := do
  let pairs ← attributesWithin? cs.length cs
  if (pairs.map Prod.fst).Nodup then
    return pairs.map fun (key, value) => (String.ofList key, String.ofList value)
  else none

/-- Reads what is between the angle brackets of a start tag. -/
def ofTag (content : List Char) : Markup :=
  let named (cs : List Char) (build : String → List Pair → Markup) : Markup :=
    match attributes? (cs.dropWhile fun c => !isSpace c) with
    | some attributes => build (String.ofList (cs.takeWhile fun c => !isSpace c)) attributes
    | none => broken
  -- a slash before the bracket closes the element at once
  match ['/'].isSuffixOf? content with
  | some content => named content empty
  | none => named content opening

/-- Reads what follows the `/` of an end tag; white space at its end is no part of the name. -/
def ofEndTag (content : List Char) : Markup :=
  closing (String.ofList
    (if content.all isSpace then content else (content.reverse.dropWhile isSpace).reverse))

/-- Whether a document type is named. -/
def isDoctype (content : List Char) : Bool :=
  (content.take 7).map Char.toUpper == "DOCTYPE".toList && (content.drop 7).any fun c => !isSpace c

/-- Reads what follows the `<` of markup; nothing is left after markup that is broken. -/
def ofMarkup : List Char → Markup × List Char
  | '!' :: '-' :: '-' :: rest =>
    match cutAt? "-->".toList rest with
    | some (_, rest) => (ignored, rest)
    | none => (broken, [])
  | '!' :: '[' :: 'C' :: 'D' :: 'A' :: 'T' :: 'A' :: '[' :: rest =>
    match cutAt? "]]>".toList rest with
    | some (value, rest) => (verbatim (String.ofList value), rest)
    | none => (broken, [])
  | '!' :: rest =>
    match cutDoctype? 0 rest with
    | some (content, rest) => if isDoctype content then (ignored, rest) else (broken, [])
    | none => (broken, [])
  -- one question mark cannot both open and close an instruction
  | '?' :: '>' :: _ => (broken, [])
  | '?' :: rest =>
    match cutAt? "?>".toList rest with
    | some (_, rest) => (ignored, rest)
    | none => (broken, [])
  | '/' :: rest =>
    match cutTag? none rest with
    | some (content, rest) => (ofEndTag content, rest)
    | none => (broken, [])
  | rest =>
    match cutTag? none rest with
    | some (content, rest) => (ofTag content, rest)
    | none => (broken, [])

/-- The text between two pieces of markup. -/
def ofRun (run : List Char) : List Markup :=
  match Text.trimBy isSpace run with
  | [] => []
  | trimmed =>
    match unescape? trimmed with
    | some value => [text (String.ofList value)]
    | none => [broken]

/-- At most `n` pieces of markup, with the texts before them. -/
def scanWithin : (n : Nat) → List Char → List Markup
  | 0, _ => []
  | n + 1, cs =>
    let (run, rest) := cs.span (· != '<')
    match rest with
    | [] => ofRun run
    | _ :: rest =>
      let (markup, rest) := ofMarkup rest
      ofRun run ++ markup :: scanWithin n rest

/-- The pieces of a document. -/
def scan (cs : List Char) : List Markup := scanWithin (cs.length + 1) cs

end Markup

end ModuleLinker.Xml
