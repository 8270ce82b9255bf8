import ModuleLinker.FileSystem.Basic
import ModuleLinker.Text.CharSet

namespace ModuleLinker

/-! # Wildcards

Paths whose segments may be patterns: `?` for one character, `*` for any, `[a-z]` and `[!a-z]` for
one of a set, and `**` as a whole segment for any number of directories. Expanding a pattern gives
the files that it leads to, in the order of their paths.
-/

/-- A sign of a segment's pattern. -/
inductive WildcardToken where
  | char (c : Char)
  | one (set : CharSet)
  | many
deriving DecidableEq, Repr

/-- A segment of a pattern. -/
inductive WildcardSegment where
  | literal (name : String)
  | wild (tokens : List WildcardToken)
  /-- Any number of directories, one inside the other. -/
  | recursive
deriving DecidableEq, Repr

namespace WildcardSegment

/-! ## Reading patterns -/

/-- The ranges of the signs between brackets; a sign alone is a range of one. -/
def rangesOf : List Char → List (Nat × Nat)
  | low :: '-' :: high :: rest => (low.toNat, high.toNat) :: rangesOf rest
  | c :: rest => (c.toNat, c.toNat) :: rangesOf rest
  | [] => []

/-- The set that the signs between brackets stand for. -/
def setOf (cs : List Char) : CharSet := .ofRanges (rangesOf cs)

/-- The signs up to the next closing bracket, which is not the first of them, and what follows. -/
def cutClass? : List Char → Option (List Char × List Char)
  | [] => none
  | first :: rest =>
    match rest.span (· != ']') with
    | (_, []) => none
    | (inner, _ :: after) => some (first :: inner, after)

/-- Reads the signs of a segment; there are no more than `n` of them. -/
def readTokens? : (n : Nat) → List Char → Option (List WildcardToken)
  | _, [] => some []
  | 0, _ :: _ => none
  | n + 1, '?' :: rest => (readTokens? n rest).map (.one .all :: ·)
  -- two stars are a segment of their own or nothing
  | _ + 1, '*' :: '*' :: _ => none
  | n + 1, '*' :: rest => (readTokens? n rest).map (.many :: ·)
  | n + 1, '[' :: '!' :: rest => do
    let (inner, rest) ← cutClass? rest
    return .one (setOf inner).complement :: (← readTokens? n rest)
  | n + 1, '[' :: rest => do
    let (inner, rest) ← cutClass? rest
    return .one (setOf inner) :: (← readTokens? n rest)
  | n + 1, c :: rest => (readTokens? n rest).map (.char c :: ·)

/-- The character of a token that stands for itself. -/
def charOf? : WildcardToken → Option Char
  | .char c => some c
  | _ => none

/-- Reads a segment. -/
def read? (text : String) : Option WildcardSegment :=
  if text == "**" then some recursive
  else do
    let tokens ← readTokens? text.length text.toList
    match tokens.mapM charOf? with
    | some name => return literal (String.ofList name)
    | none => return wild tokens

/-! ## Matching names -/

/-- Whether an element or one after it is true, for each element. -/
def anyFrom (bs : List Bool) : List Bool :=
  bs.foldr (fun b later => (b || later.headD false) :: later) []

/-- Whether the signs match what is left of a name, for each number of characters taken off its
start: the whole name comes first, and nothing last. -/
def matchesFrom : List WildcardToken → List Char → List Bool
  | [], cs => cs.map (fun _ => false) ++ [true]
  | .many :: rest, cs => anyFrom (matchesFrom rest cs)
  | .char c :: rest, cs => List.zipWith (fun d after => c == d && after) cs
      (matchesFrom rest cs).tail ++ [false]
  | .one set :: rest, cs => List.zipWith (fun d after => set.has d && after) cs
      (matchesFrom rest cs).tail ++ [false]

/-- Whether the signs match a whole name. -/
def matchesChars (tokens : List WildcardToken) (cs : List Char) : Bool :=
  (matchesFrom tokens cs).headD false

/-- Whether the segment matches the name of a file or a directory. -/
def matchesName (name : String) : WildcardSegment → Bool
  | literal text => text == name
  | wild tokens => matchesChars tokens name.toList
  | recursive => true

/-- The names among those of the directory around a directory and of that itself that a pattern can
stand for; only patterns that start with a point can. -/
def pointNames : WildcardSegment → List String
  | wild (.char '.' :: rest) =>
    ["..", "."].filter fun name => matchesChars (.char '.' :: rest) name.toList
  | _ => []

/-- The segments after further ones of any number of directories, which add nothing. -/
def skipRecursive : List WildcardSegment → List WildcardSegment
  | recursive :: rest => skipRecursive rest
  | segments => segments

end WildcardSegment

namespace FileSystem

open WildcardSegment

/-! ## Expanding -/

/-- The paths of the things in a directory. -/
def childPaths (fs : FileSystem) (p : Path) : List (String × Path) :=
  match fs.locate p with
  | .ok location => (fs.children location).map fun name => (name, p.join ⟨name⟩)
  | .error _ => []

mutual

/-- What segments lead to from the directory `p`, the names with points alone first; `n` bounds the
number of steps. -/
def expandFrom (fs : FileSystem) : (n : Nat) → Path → List WildcardSegment → List Path
  | 0, _, _ => []
  | _ + 1, p, [] => [p]
  | n + 1, p, literal name :: rest =>
    -- a point is in every directory, though no entry has that name
    let isPoint := name == "." || name == ".."
    let next := p.join ⟨name⟩
    let there := if isPoint then fs.isDirectory p else (fs.find? next).isSome
    if there then expandFrom fs n next rest else []
  | n + 1, p, segment :: rest =>
    if fs.isDirectory p then
      (segment.pointNames.flatMap fun name => expandFrom fs n (p.join ⟨name⟩) rest)
        ++ (childPaths fs p).flatMap fun (name, child) => expandAt fs n name child segment rest
    else []

/-- What a segment and those after it lead to by way of the thing `p` called `name`. -/
def expandAt (fs : FileSystem) :
    (n : Nat) → String → Path → WildcardSegment → List WildcardSegment → List Path
  | 0, _, _, _, _ => []
  | n + 1, name, p, recursive, rest =>
    -- the run of directories goes on inside this one, or has ended before it
    let inside := if fs.isDirectory p then expandFrom fs n p (recursive :: rest) else []
    match skipRecursive rest with
    | [] => if fs.isDirectory p then p :: inside else []
    | segment :: rest => expandAt fs n name p segment rest ++ inside
  | n + 1, name, p, segment, rest =>
    if segment.matchesName name then
      match rest with
      | [] => [p]
      | rest => expandFrom fs n p rest
    else []

end

/-- The segments of a pattern after the slash that it starts with; a slash at the end starts no
further one. -/
def patternSegments (p : Path) : List String :=
  let segments := if p.isAbsolute then p.segments.drop 1 else p.segments
  if segments.getLast? == some "" then segments.dropLast else segments

/-- The number of steps that suffice: every step takes a segment off the pattern, or goes down one
directory with the same segments left. -/
def expansionSteps (fs : FileSystem) (segments : List WildcardSegment) : Nat :=
  let depth := fs.entries.foldl (fun n entry => max n entry.1.length) 0
  2 * (segments.length + 1) * (depth + 2)

/-- The files that a pattern leads to. A pattern that ends with a slash leads to directories
alone. -/
def expand (fs : FileSystem) (p : Path) : Except Fault (List Path) :=
  match (patternSegments p).mapM WildcardSegment.read? with
  | none => .error (.misconfigured (.wildcard p.text))
  | some segments =>
    let start : Path := ⟨if p.isAbsolute then "/" else "."⟩
    -- a slash at the end asks for directories, and no directory is a file
    let found := if p.text.toList.getLast? == some '/' then []
      else (expandFrom fs (fs.expansionSteps segments) start segments).filter fs.isFile
    .ok (found.mergeSort Path.sortsBefore)

end FileSystem

end ModuleLinker
