namespace ModuleLinker

/-! # Cutting and trimming texts

Trimming blanks off both ends of a text, cutting it at separators and taking a fixed text off one of its
ends. Blanks are the characters with the Unicode property `White_Space`.
-/

namespace Text

/-! ## Blanks -/

/-- The code points with the property `White_Space`, as inclusive ranges. -/
def blankRanges : List (Nat × Nat) :=
  [(0x9, 0xD), (0x20, 0x20), (0x85, 0x85), (0xA0, 0xA0), (0x1680, 0x1680), (0x2000, 0x200A),
   (0x2028, 0x2029), (0x202F, 0x202F), (0x205F, 0x205F), (0x3000, 0x3000)]

/-- A character of the property `White_Space`. -/
def isBlank (c : Char) : Bool :=
  blankRanges.any fun (low, high) => decide (low ≤ c.toNat) && decide (c.toNat ≤ high)

/-- The part of `cs` between the first and the last character that `drop` does not hold of. -/
def trimBy (drop : Char → Bool) (cs : List Char) : List Char :=
  ((cs.dropWhile drop).reverse.dropWhile drop).reverse

/-- The text without blanks at either end. -/
def trim (s : String) : String :=
  String.ofList (trimBy isBlank s.toList)

/-! ## Cutting -/

/-- The runs between separators; `k` separators make `k + 1` runs, empty ones included. -/
def splitBy (separates : Char → Bool) : List Char → List (List Char)
  | [] => [[]]
  | c :: rest =>
    if separates c then [] :: splitBy separates rest
    else
      match splitBy separates rest with
      | [] => [[c]]
      | run :: runs => (c :: run) :: runs

/-- The parts of `s` between the characters that separate. -/
def split (separates : Char → Bool) (s : String) : List String :=
  (splitBy separates s.toList).map String.ofList

theorem split_ne_nil (separates : Char → Bool) (s : String) : split separates s ≠ [] := by
  have hruns : splitBy separates s.toList ≠ [] := by
    fun_cases splitBy separates s.toList with simp
  simpa [split] using hruns

/-- What follows `lead` in `s`, if `s` starts with it. -/
def after? (lead s : String) : Option String :=
  (lead.toList.isPrefixOf? s.toList).map String.ofList

/-- What precedes `tail` in `s`, if `s` ends with it. -/
def before? (tail s : String) : Option String :=
  (tail.toList.isSuffixOf? s.toList).map String.ofList

/-- The texts around the first `mark` of `s`. -/
def cutFirst? (mark : Char) (s : String) : Option (String × String) :=
  let (front, back) := s.toList.span (· != mark)
  match back with
  | [] => none
  | _ :: rest => some (String.ofList front, String.ofList rest)

/-- The texts around the last `mark` of `s`. -/
def cutLast? (mark : Char) (s : String) : Option (String × String) :=
  let (back, front) := s.toList.reverse.span (· != mark)
  match front with
  | [] => none
  | _ :: rest => some (String.ofList rest.reverse, String.ofList back.reverse)

/-- A run of characters before a line break, without the carriage return at its end. -/
def dropReturn (run : List Char) : List Char :=
  if run.getLast? = some '\r' then run.dropLast else run

/-- The lines of a text; a line break at the end starts no further line. -/
def lines (s : String) : List String :=
  let runs := splitBy (· == '\n') s.toList
  let last := runs.getLast?.getD []
  let broken := runs.dropLast.map dropReturn
  (if last.isEmpty then broken else broken ++ [last]).map String.ofList

/-- Whether `needle` occurs somewhere in `cs`. -/
def occurs (needle : List Char) : List Char → Bool
  | [] => needle.isEmpty
  | c :: rest => needle.isPrefixOf (c :: rest) || occurs needle rest

/-- Whether `needle` occurs somewhere in `s`. -/
def occursIn (needle s : String) : Bool :=
  occurs needle.toList s.toList

end Text

end ModuleLinker
