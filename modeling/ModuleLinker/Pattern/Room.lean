import ModuleLinker.Pattern.Simple
import ModuleLinker.Text.ByteRanges
import Std.Data.HashMap

namespace ModuleLinker

/-! # The room of patterns and their limits

How many bytes the machine takes that matches some patterns. It reads a text byte by byte in UTF-8,
from the front or from the back, and has its repetitions written out. Its states have numbers in the
order in which they are made. Those for a set of characters are found again by what they do, in a
table that forgets some of them, so that the room of a set depends on the states before it.

Matching is kept fast by limits on how deep a pattern may be nested and how much room patterns may take.
Patterns that are used together share their room.
-/

/-! ## Room -/

/-- What a machine takes so far. -/
structure Room where
  states : Nat
  /-- All bytes, those of the states included. -/
  bytes : Nat
deriving DecidableEq, Repr

namespace Room

/-- The room of no states. -/
def none : Room := ⟨0, 0⟩

/-- The bytes that every state takes. -/
def stateSize : Nat := 32

/-- The bytes for `n` ways on from a state that reads nothing. -/
def forks (n : Nat) : Nat := 4 * n

/-- The bytes for `n` ways on from a state, each by a range of bytes to be read. -/
def steps (n : Nat) : Nat := 8 * n

/-- Both together. -/
def plus (r s : Room) : Room := ⟨r.states + s.states, r.bytes + s.bytes⟩

/-- All together. -/
def sum (rs : List Room) : Room := rs.foldl plus none

/-- More states, none of which takes bytes for its ways on. -/
def addStates (r : Room) (n : Nat) : Room := r.plus ⟨n, n * stateSize⟩

/-- One more state, with the bytes for its ways on. -/
def addState (r : Room) (ways : Nat) : Room := r.plus ⟨1, stateSize + ways⟩

/-- The greatest room that is granted: ten mebibytes. -/
def limit : Nat := 10 * 1024 * 1024

/-- Whether a machine takes more than is granted. -/
def isOver (r : Room) : Bool := decide (limit < r.bytes)

end Room

/-- The sequences that start alike, one after another, by what they start with: the rest of each. -/
def byFirst [BEq α] (sequences : List (List α)) : List (α × List (List α)) :=
  (sequences.splitBy fun s t => s.head? == t.head?).filterMap fun group =>
    (group.head?.bind List.head?).map fun first => (first, group.map (·.drop 1))

/-! ## Sets of characters -/

/-- A machine whose states can be found again: each slot has room for one of them. -/
structure KnownStates where
  room : Room
  /-- What the state in a slot does, and its number. -/
  slots : Std.HashMap Nat (List Nat × Nat)

namespace KnownStates

/-- The number of slots in a machine that reads from the front. -/
def aheadSlots : Nat := 10000

/-- The number of slots in a machine that reads from the back. -/
def backSlots : Nat := 1000

/-- The slot of what a state does, among `count` of them: a hash that takes in one number after
another. -/
def slotOf (count : Nat) (key : List Nat) : Nat :=
  let mix := fun (hash : UInt64) (n : Nat) => (hash ^^^ UInt64.ofNat n) * 0x100000001B3
  (key.foldl mix 0xCBF29CE484222325).toNat % count

/-- The state that does what `key` tells. If it is not in its slot it is made, with the bytes for its
ways on, and takes the slot from whatever is there. -/
def find (count ways : Nat) (key : List Nat) : StateM KnownStates Nat :=
  modifyGet fun known =>
    let slot := slotOf count key
    match known.slots[slot]?.filter (·.1 == key) with
    | some (_, state) => (state, known)
    | none =>
      let ⟨room, slots⟩ := known
      (room.states, ⟨room.addState ways, slots.insert slot (key, room.states)⟩)

/-- The state that reads one of some sequences, of at most `n` ranges each, on the way to the state
`target`. -/
def ahead (target : Nat) : (n : Nat) → List (List (Nat × Nat)) → StateM KnownStates Nat
  | 0, _ => return target
  | n + 1, sequences => do
    match byFirst sequences with
    | [] => return target
    | groups =>
      let keys ← groups.mapM fun ((low, high), rests) => do
        return [low, high, ← ahead target n rests]
      find aheadSlots (Room.steps groups.length) keys.flatten

/-- The state that reads a sequence from its end, on the way to the state `target`. -/
def back (target : Nat) (sequence : List (Nat × Nat)) : StateM KnownStates Nat :=
  sequence.foldlM (fun state (low, high) => find backSlots 0 [state, low, high]) target

end KnownStates

/-! ## Parts of a machine -/

/-- What a part adds to the machine before it. -/
abbrev MachinePart := Room → Room

namespace MachinePart

/-- Any character of a set. One in ASCII is a single byte. -/
def ofSet (backward : Bool) (s : CharSet) : MachinePart :=
  if s.isAscii then fun r => (r.addStates 1).addState (Room.steps s.ranges.length)
  else
    let sequences := s.byteRanges
    if backward then fun r =>
      -- a state leads to the ends of all sequences; the one after it is where they start
      let first := (r.addState (Room.forks sequences.length)).addStates 1
      let target := r.states + 1
      ((sequences.forM fun s => discard (KnownStates.back target s)).run ⟨first, {}⟩).2.room
    else fun r => ((KnownStates.ahead r.states 4 sequences).run ⟨r.addStates 1, {}⟩).2.room

/-- The part `n` times, as long as there is room. -/
def repeated (part : MachinePart) : (n : Nat) → MachinePart
  | 0, r => r
  | n + 1, r => if r.isOver then r else repeated part n (part r)

/-- Parts to choose from: one state leads to all of them, and they lead to one. -/
def joined : List MachinePart → MachinePart
  | [], r => r.addStates 1
  | [part], r => part r
  | first :: second :: rest, r =>
    let two := ((second (first r)).addState (Room.forks 2)).addStates 1
    rest.foldl (fun r part => (part r).plus ⟨0, Room.forks 1⟩) two

/-- A part as often as limits say; `takesSome` tells that it never matches without a character. -/
def times (part : MachinePart) (takesSome : Bool) : (least : Nat) → (most : Option Nat) → MachinePart
  | 0, none, r =>
    if takesSome then part (r.addState (Room.forks 2))
    -- to go back and to go past are different states
    else (((part r).addState (Room.forks 2)).addState (Room.forks 2)).addStates 1
  | least, none, r => (repeated part least r).addState (Room.forks 2)
  | 0, some 1, r => (part (r.addState (Room.forks 2))).addStates 1
  | least, some most, r =>
    let needed := if least = 0 then r.addStates 1 else repeated part least r
    if least = most then needed
    else repeated (fun r => part (r.addState (Room.forks 2))) (most - least) (needed.addStates 1)

end MachinePart

/-! ## Words -/

namespace Room

/-- The room for words of at most `n` bytes that start at the same place, as a tree. A word that ends
at the place parts those before it from those after it, which then do not share the ways on. -/
def ofWords : (n : Nat) → (words : List (List UInt8)) → Room
  | 0, _ => none
  | n + 1, words =>
    -- while there is no way on, all words that end are one
    let words := if words.head? == some [] then [] :: words.dropWhile List.isEmpty else words
    if words.all List.isEmpty then none
    else
      let runs := (words.splitOnP List.isEmpty).map fun run =>
        byFirst (run.mergeSort fun s t => decide (s.headD 0 ≤ t.headD 0))
      let place := none.addState (forks (runs.length - 1 + runs.countP (!·.isEmpty)))
      place.plus (sum (runs.map fun groups =>
        let next := sum (groups.map fun (_, rests) => ofWords n rests)
        match groups.length with
        | 0 => next
        | 1 => next.addStates 1
        | k => next.addState (steps k)))

end Room

namespace SimplePattern

/-- The bytes of a literal, in the order in which they are read. -/
def bytesOf (backward : Bool) (cs : List Char) : List UInt8 :=
  let bytes := cs.flatMap String.utf8EncodeChar
  if backward then bytes.reverse else bytes

/-! ## Patterns -/

/-- The parts of a machine for the branches of a pattern; what is no choice has one. -/
def parts (backward : Bool) : SimplePattern → List MachinePart
  | empty | anchor _ => [fun r => r.addStates 1]
  | literal cs =>
    let bytes := bytesOf backward cs
    [fun r => r.addStates bytes.length]
  | set s => [.ofSet backward s]
  | words ws =>
    let ws := ws.map (bytesOf backward)
    let room := (Room.ofWords ((ws.map List.length).foldl max 0 + 1) ws).addStates 1
    [fun r => r.plus room]
  | row p q =>
    let first := MachinePart.joined (p.parts backward)
    let second := MachinePart.joined (q.parts backward)
    [if backward then first ∘ second else second ∘ first]
  | choice p q => .joined (p.parts backward) :: q.parts backward
  | times p least most _ =>
    let takesSome := p.leastLength?.any (0 < ·)
    [.times (.joined (p.parts backward)) takesSome least most]
  | group p => [.joined (p.parts backward)]

end SimplePattern

namespace Room

/-- The room of the machine for some patterns. It can start anywhere in a text, unless all patterns
are tied to the end of the text where it starts. -/
def ofPatterns (backward : Bool) (ps : List SimplePattern) : Room :=
  let isTied := fun p : SimplePattern =>
    if backward then p.endsAt .textEnd else p.startsAt .textStart
  let start := none.addStates 1
  let start := if ps.all isTied then start else (start.addState (forks 2)).addState (steps 1)
  MachinePart.joined
    (ps.map fun p r => (MachinePart.joined (p.parts backward) r).addStates 1) start

end Room

namespace Pattern

/-! ## Depth -/

/-- How deep a pattern is nested. What stands in a row is one level deeper than the row, and so is
what stands in a group, a choice, a repetition or brackets. -/
def depth : Pattern → Nat
  | empty | anchor _ => 0
  | char _ brackets => brackets
  | sequence p (sequence q r) => max (p.depth + 1) (sequence q r).depth
  | sequence p q => max p.depth q.depth + 1
  | choice p (choice q r) => max (p.depth + 1) (choice q r).depth
  | choice p q => max p.depth q.depth + 1
  | times p _ _ _ => p.depth + 1
  | group p _ => p.depth + 1

/-! ## Bounds -/

/-- The greatest depth of a pattern. -/
def maxDepth : Nat := 250

/-- Whether patterns that are used together keep to the bounds: the machine that reads a text from its
start has to, and the one that reads it from its end. -/
def areBounded (ps : List Pattern) : Bool :=
  let simple := ps.map simplified
  ps.all (·.depth ≤ maxDepth) && !(Room.ofPatterns false simple).isOver
    && !(Room.ofPatterns true simple).isOver

end Pattern

end ModuleLinker
