namespace ModuleLinker

/-! # Sets of characters

A set of characters is a list of ranges of code points. The ranges ascend, and between two of them
there is a code point that is in neither, so that a set has only one list.
-/

/-- A set of characters, by inclusive ranges of their code points. -/
structure CharSet where
  ranges : List (Nat × Nat)
deriving DecidableEq, Repr, Inhabited

namespace CharSet

/-- The greatest code point. -/
def maxCode : Nat := 0x10FFFF

/-! ## Membership -/

/-- Whether a code point is in the set. -/
def hasCode (n : Nat) (s : CharSet) : Bool :=
  s.ranges.any fun (low, high) => decide (low ≤ n) && decide (n ≤ high)

/-- Whether a character is in the set. -/
def has (c : Char) (s : CharSet) : Bool := s.hasCode c.toNat

/-! ## Sets from ranges -/

/-- Joins the range from `low` to `high` with those after it that overlap or touch it; the ranges
after it start at `low` or later. -/
def joinRanges (low high : Nat) : List (Nat × Nat) → List (Nat × Nat)
  | [] => [(low, high)]
  | (first, last) :: rest =>
    if first ≤ high + 1 then joinRanges low (max high last) rest
    else (low, high) :: joinRanges first last rest

/-- The set of the code points of some ranges in any order; a range that ends before its start has
none. -/
def ofRanges (ranges : List (Nat × Nat)) : CharSet :=
  let proper := ranges.filter fun (low, high) => decide (low ≤ high)
  match proper.mergeSort fun a b => decide (a.1 ≤ b.1) with
  | [] => ⟨[]⟩
  | (low, high) :: rest => ⟨joinRanges low high rest⟩

/-- The set of the characters between two of them. -/
def range (first last : Char) : CharSet := ofRanges [(first.toNat, last.toNat)]

/-- The set of one character. -/
def single (c : Char) : CharSet := range c c

/-- The set without characters. -/
def empty : CharSet := ⟨[]⟩

/-- The set of all characters. -/
def all : CharSet := ⟨[(0, maxCode)]⟩

/-- The ASCII characters. -/
def ascii : CharSet := ⟨[(0, 0x7F)]⟩

/-! ## Operations -/

/-- The ranges of the code points from `start` on that lie in none of some ascending ranges. -/
def gaps (start : Nat) : List (Nat × Nat) → List (Nat × Nat)
  | [] => if start ≤ maxCode then [(start, maxCode)] else []
  | (low, high) :: rest =>
    if start < low then (start, low - 1) :: gaps (high + 1) rest else gaps (high + 1) rest

/-- The characters that are not in the set. -/
def complement (s : CharSet) : CharSet := ⟨gaps 0 s.ranges⟩

/-- The characters of either set. -/
def union (s t : CharSet) : CharSet := ofRanges (s.ranges ++ t.ranges)

/-- The characters of both sets. -/
def inter (s t : CharSet) : CharSet := (s.complement.union t.complement).complement

/-- The characters of the first set that are not in the second. -/
def diff (s t : CharSet) : CharSet := s.inter t.complement

/-- The characters of one of the sets that are not in the other. -/
def symmDiff (s t : CharSet) : CharSet := (s.diff t).union (t.diff s)

/-- The character of a set of one. -/
def single? (s : CharSet) : Option Char :=
  match s.ranges with
  | [(low, high)] => if low = high then some (Char.ofNat low) else none
  | _ => none

/-- Whether a set is part of the ASCII characters. -/
def isAscii (s : CharSet) : Bool := s.ranges.all fun (_, high) => decide (high ≤ 0x7F)

end CharSet

end ModuleLinker
