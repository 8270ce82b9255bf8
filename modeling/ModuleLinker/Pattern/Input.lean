import ModuleLinker.Pattern.Basic
import ModuleLinker.Text.CaseFold
import ModuleLinker.Text.Property

namespace ModuleLinker

/-! # The text of a pattern

What is still to be read of a pattern's written form, and the settings that hold there. In a spaced
pattern blanks between the signs mean nothing, and neither do remarks, which start with a number sign
and go to the end of the line.
-/

/-- What can be set for a part of a pattern. -/
structure PatternSettings where
  ignoreCase : Bool := false
  /-- Anchors hold at the lines of the text. -/
  multiLine : Bool := false
  /-- A point stands for the ends of lines too. -/
  dotAll : Bool := false
  /-- Lines may end with a carriage return too. -/
  carriageReturn : Bool := false
  /-- Classes and case go by the Unicode standard instead of ASCII. -/
  unicode : Bool := true
  /-- Blanks and remarks mean nothing. -/
  spaced : Bool := false
  /-- Repetitions are eager if they are marked, instead of if they are not. -/
  markedEager : Bool := false
deriving DecidableEq, Repr

/-- The text of a pattern that is still to be read, and what was set and named before it. -/
structure PatternInput where
  rest : List Char
  settings : PatternSettings
  groupNames : List String
deriving DecidableEq, Repr

/-- Reads a part of a pattern; there is only one fault, so nothing is said about it. -/
abbrev PatternReader := StateT PatternInput Option

namespace PatternReader

/-! ## Characters -/

/-- The next character, which is left where it is. -/
def peek : PatternReader (Option Char) := return (← get).rest.head?

/-- Takes the next character. -/
def next : PatternReader Char := do
  match (← get).rest with
  | [] => failure
  | c :: rest =>
    modify fun i => { i with rest }
    return c

/-- Takes a character that has to come next. -/
def expect (c : Char) : PatternReader Unit := do
  if (← next) != c then failure

/-- Takes the next character if it is `c`, and tells whether it was. -/
def accept (c : Char) : PatternReader Bool := do
  if (← peek) == some c then
    let _ ← next
    return true
  return false

/-- Takes characters as long as `p` holds of them. -/
def takeWhile (p : Char → Bool) : PatternReader (List Char) := do
  let (run, rest) := (← get).rest.span p
  modify fun i => { i with rest }
  return run

/-! ## Blanks and remarks -/

/-- The text after blanks and remarks; `inRemark` tells whether it starts inside one. -/
def dropSpace : (inRemark : Bool) → List Char → List Char
  | _, [] => []
  | true, c :: rest => dropSpace (c != '\n') rest
  | false, c :: rest =>
    if c == '#' then dropSpace true rest
    else if Text.isBlank c then dropSpace false rest
    else c :: rest

/-- Takes blanks and remarks, if the pattern is spaced. -/
def skip : PatternReader Unit :=
  modify fun i => if i.settings.spaced then { i with rest := dropSpace false i.rest } else i

/-- Takes the next character if it is `c`, and what means nothing after it. -/
def acceptSkip (c : Char) : PatternReader Bool := do
  let found ← accept c
  if found then skip
  return found

/-- The character after the next one. In a spaced pattern blanks before it do not count, nor does
one number sign. -/
def peekSecond : PatternReader (Option Char) := do
  let i ← get
  let after := i.rest.drop 1
  if !i.settings.spaced then return after.head?
  match after.dropWhile Text.isBlank with
  | '#' :: rest => return (rest.dropWhile Text.isBlank).head?
  | rest => return rest.head?

/-- Takes up to `n` characters that `p` holds of; in a spaced pattern there may be blanks and remarks
after each. -/
def takeSpaced (p : Char → Bool) : (n : Nat) → PatternReader (List Char)
  | 0 => return []
  | n + 1 => do
    if !(← peek).any p then return []
    let c ← next
    skip
    return c :: (← takeSpaced p n)

/-- Takes all characters that `p` holds of, like `takeSpaced`. -/
def takeAllSpaced (p : Char → Bool) : PatternReader (List Char) := do
  takeSpaced p (← get).rest.length

/-! ## Settings -/

/-- The settings that hold here. -/
def settings : PatternReader PatternSettings := return (← get).settings

/-- A set with the other cases of its characters, if case is ignored. -/
def withCases (s : CharSet) : PatternReader CharSet := do
  let now ← settings
  if !now.ignoreCase then return s
  return s.withVariants (if now.unicode then Text.foldPairs else Text.asciiFoldPairs)

/-- The characters that are not in a set. Without Unicode there is no such set: it would have single
bytes of longer characters in it. -/
def negated (s : CharSet) : PatternReader CharSet := do
  if (← settings).unicode then return s.complement else failure

end PatternReader

end ModuleLinker
