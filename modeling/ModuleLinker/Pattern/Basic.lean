import ModuleLinker.Text.CharSet

namespace ModuleLinker

/-! # Patterns

Regular expressions over characters, and whether one matches somewhere in a text. Matching goes all
ways through a text at once: `Way.reach` takes the spots at which a part of the pattern may start to
those at which it may end, so that no text takes long.
-/

/-! ## Spots in a text -/

/-- A place between the characters of a text. -/
structure Spot where
  /-- The character before the place. -/
  before : Option Char
  /-- The character after the place. -/
  after : Option Char
deriving DecidableEq, Repr

namespace Spot

/-- All spots of a text, the first one before the first character. -/
def all (text : String) : List Spot :=
  let cs := text.toList.map some
  List.zipWith Spot.mk (none :: cs) (cs ++ [none])

end Spot

/-- Some of the spots of a text: bit `i` stands for the spot that `i` characters precede. -/
abbrev SpotSet := Nat

namespace SpotSet

/-- The spots that `p` holds of. -/
def ofPred (spots : List Spot) (p : Spot → Bool) : SpotSet :=
  spots.foldr (fun s set => 2 * set + (p s).toNat) 0

/-- The spots one character further on. -/
def forward (set : SpotSet) : SpotSet := set <<< 1

/-- The spots of the first set that are not in the second. -/
def without (set other : SpotSet) : SpotSet := set ^^^ (set &&& other)

end SpotSet

/-! ## Anchors -/

/-- How the place between two characters lies to the words of a text. -/
inductive WordEdge where
  /-- A start or an end of a word. -/
  | any
  /-- Neither a start nor an end. -/
  | neither
  | start
  | stop
  /-- What precedes is no part of a word. -/
  | startHalf
  /-- What follows is no part of a word. -/
  | stopHalf
deriving DecidableEq, Repr

namespace WordEdge

/-- Whether a place is of the kind, by whether parts of words precede and follow it. -/
def holds (before after : Bool) : WordEdge → Bool
  | any => before != after
  | neither => before == after
  | start => !before && after
  | stop => before && !after
  | startHalf => !before
  | stopHalf => !after

end WordEdge

/-- A condition on the place of a match. -/
inductive Anchor where
  | textStart
  | textEnd
  | lineStart
  | lineEnd
  /-- The start of a line where lines may end with a carriage return, a line feed or both. -/
  | anyLineStart
  | anyLineEnd
  /-- A place at words that are made of some characters. -/
  | word (edge : WordEdge) (chars : CharSet)
deriving DecidableEq, Repr

namespace Anchor

/-- Whether the condition holds at a spot. -/
def holds (s : Spot) : Anchor → Bool
  | textStart => s.before.isNone
  | textEnd => s.after.isNone
  | lineStart => s.before.all (· == '\n')
  | lineEnd => s.after.all (· == '\n')
  -- there is no line between a carriage return and the line feed after it
  | anyLineStart => s.before.all fun c => c == '\n' || (c == '\r' && s.after != some '\n')
  | anyLineEnd => s.after.all fun c => c == '\r' || (c == '\n' && s.before != some '\r')
  | word edge chars => edge.holds (s.before.any chars.has) (s.after.any chars.has)

end Anchor

/-! ## Patterns and their matches -/

/-- A regular expression. -/
inductive Pattern where
  | empty
  /-- A character of a set; `brackets` tells how deep the set is nested in its written form. -/
  | char (set : CharSet) (brackets : Nat)
  | anchor (a : Anchor)
  | sequence (p q : Pattern)
  | choice (p q : Pattern)
  /-- At least `least` times the pattern, and at most `most` times if there is a limit; an eager one
  goes on as often as it can. -/
  | times (p : Pattern) (least : Nat) (most : Option Nat) (eager : Bool)
  /-- A pattern in parentheses, which may have a number. -/
  | group (p : Pattern) (numbered : Bool)
deriving DecidableEq, Repr, Inhabited

/-! ## Ways through a text

For a given text it is enough to know of a set of characters where in the text they are, and of an
anchor where it holds. -/

/-- The ways that a pattern can go through a text. -/
inductive Way where
  /-- Over the character at one of the spots. -/
  | step (spots : SpotSet)
  /-- On from one of the spots without a character. -/
  | stay (spots : SpotSet)
  | sequence (v w : Way)
  | choice (v w : Way)
  | times (w : Way) (least : Nat) (most : Option Nat)
deriving Repr

namespace Way

/-- The spots after `n` steps, and those one step before. -/
def exactly (step : SpotSet → SpotSet) : (n : Nat) → (before spots : SpotSet) → SpotSet × SpotSet
  | 0, before, spots => (before, spots)
  | n + 1, _, spots =>
    let next := step spots
    -- what stays the same once does so for ever
    if next == spots then (spots, spots) else exactly step n spots next

/-- Adds the spots that up to `n` further steps reach. A step from one of the spots `seen` leads to a
spot `found` already; `edge` are the others. -/
def further (step : SpotSet → SpotSet) : (n : Nat) → (seen found edge : SpotSet) → SpotSet
  | 0, _, found, _ => found
  | n + 1, seen, found, edge =>
    if edge == 0 then found
    else
      let next := step edge
      further step n (seen ||| next) (found ||| next) (SpotSet.without next seen)

/-- The spots that can be reached from one of the spots `start`, in a text with `size` spots. Where
the number of repetitions has no limit, more of them than there are spots reach no further one. -/
def reach (size : Nat) : Way → (start : SpotSet) → SpotSet
  | step spots, start => SpotSet.forward (start &&& spots)
  | stay spots, start => start &&& spots
  | sequence v w, start => w.reach size (v.reach size start)
  | choice v w, start => v.reach size start ||| w.reach size start
  | times w least most, start =>
    -- at least as many as needed, then as many more as the limit leaves
    let (before, found) := exactly (w.reach size) least 0 start
    let more := (most.map (· - least)).getD size
    further (w.reach size) more (before ||| found) found (SpotSet.without found before)

end Way

namespace Pattern

/-- The ways of a pattern through a text with the given spots. -/
def ways (spots : List Spot) : Pattern → Way
  | empty => .stay (SpotSet.ofPred spots fun _ => true)
  | char set _ => .step (SpotSet.ofPred spots fun s => s.after.any set.has)
  | anchor a => .stay (SpotSet.ofPred spots a.holds)
  | sequence p q => .sequence (p.ways spots) (q.ways spots)
  | choice p q => .choice (p.ways spots) (q.ways spots)
  | times p least most _ => .times (p.ways spots) least most
  | group p _ => p.ways spots

/-- Whether the pattern matches somewhere in the text: from some spot it has a way to another one or
back to the same. -/
def matchesIn (p : Pattern) (text : String) : Bool :=
  let spots := Spot.all text
  (p.ways spots).reach spots.length (SpotSet.ofPred spots fun _ => true) != 0

end Pattern

end ModuleLinker
