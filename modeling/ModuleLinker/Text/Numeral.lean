namespace ModuleLinker

/-! # Numerals

Reading unsigned numerals of a radix with an upper limit, and writing hexadecimal ones.
Reading names the first thing that is wrong, from left to right: a character that is no digit is
noticed before the digits around it are found too large.
-/

/-- Why a text is not a numeral in range. -/
inductive NumeralFault where
  | empty
  | invalidDigit
  | tooLarge
deriving DecidableEq, Repr

namespace NumeralFault

/-- The wording of a numeral's defect. -/
def message : NumeralFault → String
  | empty => "cannot parse integer from empty string"
  | invalidDigit => "invalid digit found in string"
  | tooLarge => "number too large to fit in target type"

end NumeralFault

namespace Numeral

/-- The value of a digit in `radix` (at most 36); letters count in either case. -/
def digitValue? (radix : Nat) (c : Char) : Option Nat :=
  let value? : Option Nat :=
    if '0' ≤ c ∧ c ≤ '9' then some (c.toNat - '0'.toNat)
    else if 'a' ≤ c ∧ c ≤ 'z' then some (c.toNat - 'a'.toNat + 10)
    else if 'A' ≤ c ∧ c ≤ 'Z' then some (c.toNat - 'A'.toNat + 10)
    else none
  value?.filter (· < radix)

/-- Continues a numeral whose digits so far amount to `sum`; `limit` is the largest value. -/
def readDigits (radix limit : Nat) (sum : Nat) : List Char → Except NumeralFault Nat
  | [] => .ok sum
  | c :: rest =>
    match digitValue? radix c with
    | none => .error .invalidDigit
    | some d =>
      let next := sum * radix + d
      if next ≤ limit then readDigits radix limit next rest else .error .tooLarge

/-- Reads an unsigned numeral, which may carry one leading plus sign. -/
def read (radix limit : Nat) : List Char → Except NumeralFault Nat
  | [] => .error .empty
  | '+' :: c :: rest => readDigits radix limit 0 (c :: rest)
  | cs => readDigits radix limit 0 cs

/-- Lower-case hexadecimal digits of `n`, filled with zeros on the left to `width`. -/
def hex (width n : Nat) : String :=
  let digits := Nat.toDigits 16 n
  String.ofList (List.replicate (width - digits.length) '0' ++ digits)

end Numeral

end ModuleLinker
