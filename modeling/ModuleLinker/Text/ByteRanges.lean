import ModuleLinker.Text.CharSet

namespace ModuleLinker

/-! # Sets of characters by their bytes

The characters of a set in UTF-8, as sequences of byte ranges: the encodings that a sequence stands
for are those that have in each place a byte of the range in that place. The sequences of a set
ascend, and no two of them have an encoding in common.
-/

namespace CharSet

/-- The code points from `low` to `high` as sequences of ranges, one range for each digit to the base
64: `k` digits after the first one. The code points of a sequence are those whose digits lie in its
ranges. -/
def digitRanges : (k : Nat) → (low high : Nat) → List (List (Nat × Nat))
  | 0, low, high => [[(low, high)]]
  | k + 1, low, high =>
    let unit := 64 ^ (k + 1)
    let a := low / unit
    let b := high / unit
    if a = b then (digitRanges k (low % unit) (high % unit)).map ((a, a) :: ·)
    else
      let starts := low % unit == 0
      let ends := high % unit == unit - 1
      -- the first and the last digit do not go with all digits that follow
      let head := if starts then []
        else (digitRanges k (low % unit) (unit - 1)).map ((a, a) :: ·)
      let tail := if ends then [] else (digitRanges k 0 (high % unit)).map ((b, b) :: ·)
      let first := if starts then a else a + 1
      let last := if ends then b else b - 1
      let middle := if first ≤ last then (digitRanges k 0 (unit - 1)).map ((first, last) :: ·) else []
      head ++ middle ++ tail

/-- The code points that have encodings of one length: the number of bytes after the first one, what
the first byte adds to its digit, and the first and the last code point. The surrogates have none. -/
def lengthRanges : List (Nat × Nat × Nat × Nat) :=
  [(0, 0, 0, 0x7F), (1, 0xC0, 0x80, 0x7FF), (2, 0xE0, 0x800, 0xD7FF), (2, 0xE0, 0xE000, 0xFFFF),
   (3, 0xF0, 0x10000, maxCode)]

/-- The bytes for ranges of digits; `mark` is what the first byte adds, all others add 128. -/
def bytesOfDigits (mark : Nat) : List (Nat × Nat) → List (Nat × Nat)
  | [] => []
  | (low, high) :: rest =>
    (mark + low, mark + high) :: rest.map fun (low, high) => (0x80 + low, 0x80 + high)

/-- A set as sequences of byte ranges. -/
def byteRanges (s : CharSet) : List (List (Nat × Nat)) :=
  s.ranges.flatMap fun (low, high) => lengthRanges.flatMap fun (k, mark, first, last) =>
    let low := max low first
    let high := min high last
    if low ≤ high then (digitRanges k low high).map (bytesOfDigits mark) else []

end CharSet

end ModuleLinker
