import ModuleLinker.Fault
import ModuleLinker.Pattern.Class
import ModuleLinker.Pattern.Room

namespace ModuleLinker

/-! # Reading patterns

The written form of patterns: characters, classes, anchors, groups, choices and repetitions.
Settings like `(?i)` hold up to the end of the group that they stand in. Look-around is refused, and
so are patterns that exceed the bounds.
-/

namespace PatternReader

/-! ## Repetitions -/

/-- Takes a number with blanks around it. -/
def count : PatternReader Nat := do
  let _ ← takeWhile Text.isBlank
  let digits ← takeAllSpaced Char.isDigit
  let _ ← takeAllSpaced Text.isBlank
  (Numeral.read 10 0xFFFFFFFF digits).toOption

/-- Takes the limits of a repetition after the opening brace. -/
def limits : PatternReader (Nat × Option Nat) := do
  skip
  let least ← count
  if ← accept '\x7d' then return (least, some least)
  expect ','
  skip
  if ← accept '\x7d' then return (least, none)
  let most ← count
  expect '\x7d'
  if least ≤ most then return (least, some most) else failure

/-- Whether a character starts a repetition. -/
def startsRepetition (c : Char) : Bool := c == '*' || c == '+' || c == '?' || c == '\x7b'

/-- Takes one repetition if there is one: its limits, and whether it is eager. -/
def repetition : PatternReader (Option (Nat × Option Nat × Bool)) := do
  let c ← peek
  if !c.any startsRepetition then return none
  let _ ← next
  let (least, most) ← match c with
    | some '*' => pure (0, none)
    | some '+' => pure (1, none)
    | some '?' => pure (0, some 1)
    | _ => do
      let found ← limits
      skip
      pure found
  let isMarked ← accept '?'
  return some (least, most, isMarked == (← settings).markedEager)

/-- Takes the repetitions that follow a pattern; `n` bounds their number. -/
def repetitions : (n : Nat) → Pattern → PatternReader Pattern
  | 0, _ => failure
  | n + 1, p => do
    skip
    match ← repetition with
    | none => return p
    | some (least, most, eager) => repetitions n (.times p least most eager)

/-! ## Groups -/

/-- The settings with one of them switched. -/
def switch (on : Bool) (now : PatternSettings) (letter : Char) : PatternReader PatternSettings :=
  match letter with
  | 'i' => return { now with ignoreCase := on }
  | 'm' => return { now with multiLine := on }
  | 's' => return { now with dotAll := on }
  | 'R' => return { now with carriageReturn := on }
  | 'u' => return { now with unicode := on }
  | 'x' => return { now with spaced := on }
  | 'U' => return { now with markedEager := on }
  | _ => failure

/-- Takes the settings at the start of a group, which no letter may name twice; they do not hold
yet. -/
def newSettings : PatternReader PatternSettings := do
  let letters ← takeWhile fun c => c != ')' && c != ':'
  let (on, off) := letters.span (· != '-')
  let off' := off.drop 1
  -- a minus sign has to switch something off
  if off.length == 1 || (on ++ off').eraseDups.length != (on ++ off').length then failure
  let now ← on.foldlM (switch true) (← settings)
  off'.foldlM (switch false) now

/-- Takes the name of a group up to the closing bracket. -/
def groupName : PatternReader Unit := do
  let name ← takeWhile (· != '>')
  expect '>'
  let inName := fun c => c == '_' || c == '.' || c == '[' || c == ']' || Text.isAlphanumeric c
  let wellFormed := match name with
    | [] => false
    | c :: rest => (c == '_' || Text.isLetter c) && rest.all inName
  let name := String.ofList name
  if !wellFormed || (← get).groupNames.contains name then failure
  modify fun i => { i with groupNames := name :: i.groupNames }

/-- How a parenthesis goes on. -/
inductive Opening where
  /-- Settings for the rest of the surrounding group. -/
  | settings
  /-- A group with a content of its own. -/
  | group (numbered : Bool)

/-- Takes what follows an opening parenthesis up to the content of the group. -/
def opening : PatternReader Opening := do
  skip
  if !(← accept '?') then return .group true
  if ← accept 'P' then
    expect '<'
    groupName
    return .group true
  if ← accept '<' then
    groupName
    return .group true
  -- an empty list of settings is none
  if (← peek) == some ')' then failure
  let new ← newSettings
  modify fun i => { i with settings := new }
  if ← accept ':' then return .group false
  expect ')'
  return .settings

/-! ## Patterns -/

/-- The pattern of an item outside classes. -/
def ofItem : Item → PatternReader Pattern
  | .literal c => return .char (← withCases (.single c)) 0
  | .set s => return .char s 0
  | .anchor a => return .anchor a

/-- What a point stands for. Without Unicode it would be single bytes of longer characters too. -/
def point : PatternReader CharSet := do
  let now ← settings
  if !now.unicode then failure
  if now.dotAll then return .all
  let ends := if now.carriageReturn then ['\n', '\r'] else ['\n']
  return (CharSet.ofCodes (ends.map Char.toNat)).complement

/-- The anchor at the start of a text, or of a line if lines matter. -/
def startAnchor (now : PatternSettings) : Anchor :=
  if !now.multiLine then .textStart else if now.carriageReturn then .anyLineStart else .lineStart

/-- The anchor at the end of a text, or of a line if lines matter. -/
def endAnchor (now : PatternSettings) : Anchor :=
  if !now.multiLine then .textEnd else if now.carriageReturn then .anyLineEnd else .lineEnd

/-- Patterns one after another. -/
def inRow : List Pattern → Pattern
  | [] => .empty
  | [p] => p
  | p :: rest => .sequence p (inRow rest)

mutual

/-- Takes choices up to the end of the group. -/
def choices : (n : Nat) → PatternReader Pattern
  | 0 => failure
  | n + 1 => do
    let first := inRow (← row n)
    if ← accept '|' then return .choice first (← choices n) else return first

/-- Takes patterns one after another up to the end of the choice. -/
def row : (n : Nat) → PatternReader (List Pattern)
  | 0 => failure
  | n + 1 => do
    skip
    match ← peek with
    | none | some '|' | some ')' => return []
    | _ =>
      match ← atom n with
      | none =>
        -- settings match nothing that could be repeated
        skip
        if (← peek).any startsRepetition then failure
        return .empty :: (← row n)
      | some p =>
        let p ← repetitions n p
        return p :: (← row n)

/-- Takes one pattern without its repetitions; settings are none. -/
def atom : (n : Nat) → PatternReader (Option Pattern)
  | 0 => failure
  | n + 1 => do
    let before ← settings
    let c ← next
    if startsRepetition c then failure
    match c with
    | '(' =>
      match ← opening with
      | .settings => return none
      | .group numbered =>
        let p ← choices n
        expect ')'
        -- settings inside the group end with it, names do not
        modify fun i => { i with settings := before }
        return some (.group p numbered)
    | '[' =>
      let class' ← bracket n
      return some (.char class'.set class'.depth)
    | '.' => return some (.char (← point) 0)
    | '^' => return some (.anchor (startAnchor before))
    | '$' => return some (.anchor (endAnchor before))
    | '\\' => return some (← ofItem (← escape))
    | c => return some (← ofItem (.literal c))

end

end PatternReader

namespace Pattern

/-- Reads a pattern; every step of the reader takes a character or is followed by one that does,
so their number bounds the steps. -/
def parse? (s : String) : Option Pattern := do
  let cs := s.toList
  let (p, left) ← (PatternReader.choices (4 * cs.length + 4)).run ⟨cs, {}, []⟩
  if left.rest.isEmpty then some p else none

/-- Reads patterns that are used together; they have to be well formed and keep to the bounds. -/
def parseAll (texts : List String) : Except Fault (List Pattern) :=
  match texts.mapM parse? with
  | some ps => if areBounded ps then .ok ps else .error .pattern
  | none => .error .pattern

end Pattern

end ModuleLinker
