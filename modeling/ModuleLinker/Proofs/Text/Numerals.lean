import Mathlib.Algebra.Group.Nat.Defs
import Mathlib.Data.List.Basic
import ModuleLinker.Text.Numeral
import ModuleLinker.Text.Split

namespace ModuleLinker

/-! # What numerals spell

The digits of a numeral amount to one number (`Numeral.Spells`). A numeral is read as that number where it is
within the limit, and one plus sign before the digits makes no difference (`Numeral.read_eq_ok_iff`). The
numerals that are written, decimal and hexadecimal ones, spell the numbers they were written for.
-/

namespace Numeral

variable {radix limit sum n d : Nat} {c : Char} {cs : List Char}

/-! ## Digits -/

/-- A digit of `radix`. -/
def IsDigit (radix : Nat) (c : Char) : Prop := (digitValue? radix c).isSome

instance (radix : Nat) (c : Char) : Decidable (IsDigit radix c) := inferInstanceAs (Decidable (_ = _))

/-- Characters are in the order of their codes. -/
theorem le_iff_toNat_le {a b : Char} : a ≤ b ↔ a.toNat ≤ b.toNat := Iff.rfl

theorem digitValue?_eq_some_iff : digitValue? radix c = some d ↔ d < radix ∧
    ('0' ≤ c ∧ c ≤ '9' ∧ d = c.toNat - '0'.toNat ∨
      'a' ≤ c ∧ c ≤ 'z' ∧ d = c.toNat - 'a'.toNat + 10 ∨
      'A' ≤ c ∧ c ≤ 'Z' ∧ d = c.toNat - 'A'.toNat + 10) := by
  rw [digitValue?, Option.filter_eq_some_iff, decide_eq_true_eq, and_comm]
  refine and_congr_right fun _ => ?_
  simp only [le_iff_toNat_le, Char.reduceToNat]
  split
  · rw [Option.some.injEq]
    omega
  · split
    · rw [Option.some.injEq]
      omega
    · split
      · rw [Option.some.injEq]
        omega
      · constructor
        · exact nofun
        · omega

theorem isDigit_of_digitValue? (h : digitValue? radix c = some d) : IsDigit radix c :=
  Option.isSome_of_eq_some h

theorem digitValue?_digitChar (hradix : radix ≤ 16) (h : d < radix) :
    digitValue? radix d.digitChar = some d := by
  have hall : ∀ radix ≤ 16, ∀ d < radix, digitValue? radix d.digitChar = some d := by decide +kernel
  exact hall radix hradix d h

theorem not_isDigit_plus : ¬IsDigit radix '+' := by
  intro h
  exact nomatch h

/-- The codes of digits and letters. -/
theorem IsDigit.code (h : IsDigit radix c) : 48 ≤ c.toNat ∧ c.toNat ≤ 57 ∨
    97 ≤ c.toNat ∧ c.toNat ≤ 122 ∨ 65 ≤ c.toNat ∧ c.toNat ≤ 90 := by
  obtain ⟨d, hd⟩ := Option.isSome_iff_exists.1 h
  have hrange := (digitValue?_eq_some_iff.1 hd).2
  simp only [le_iff_toNat_le, Char.reduceToNat] at hrange
  omega

theorem IsDigit.mono {radix' : Nat} (h : IsDigit radix c) (hle : radix ≤ radix') : IsDigit radix' c := by
  obtain ⟨d, hd⟩ := Option.isSome_iff_exists.1 h
  obtain ⟨hlt, hvalue⟩ := digitValue?_eq_some_iff.1 hd
  exact Option.isSome_iff_exists.2 ⟨d, digitValue?_eq_some_iff.2 ⟨Nat.lt_of_lt_of_le hlt hle, hvalue⟩⟩

theorem IsDigit.isAscii (h : IsDigit radix c) : c.toNat < 0x80 := by
  have hcode := h.code
  omega

theorem IsDigit.not_isBlank (h : IsDigit radix c) : ¬Text.isBlank c := by
  have hcode := h.code
  intro hblank
  simp only [Text.isBlank, Text.blankRanges, List.any_cons, List.any_nil, Bool.or_eq_true, Bool.and_eq_true,
    decide_eq_true_eq, Bool.false_eq_true, or_false] at hblank
  omega

theorem isDigit_ten_iff : IsDigit 10 c ↔ c.isDigit := by
  simp only [IsDigit, Option.isSome_iff_exists, digitValue?_eq_some_iff, Char.isDigit_iff_toNat,
    le_iff_toNat_le, Char.reduceToNat]
  constructor
  · rintro ⟨d, hd⟩
    omega
  · intro h
    exact ⟨c.toNat - 48, by omega⟩

/-- A hexadecimal digit, in either case. -/
def isHexDigit (c : Char) : Bool := c.isDigit || ('a' ≤ c && c ≤ 'f') || ('A' ≤ c && c ≤ 'F')

theorem isDigit_sixteen_iff : IsDigit 16 c ↔ isHexDigit c := by
  simp only [IsDigit, isHexDigit, Option.isSome_iff_exists, digitValue?_eq_some_iff, Bool.or_eq_true,
    Bool.and_eq_true, decide_eq_true_eq, Char.isDigit_iff_toNat, le_iff_toNat_le, Char.reduceToNat]
  constructor
  · rintro ⟨d, hd⟩
    omega
  · rintro ((h | h) | h)
    · exact ⟨c.toNat - 48, by omega⟩
    · exact ⟨c.toNat - 97 + 10, by omega⟩
    · exact ⟨c.toNat - 65 + 10, by omega⟩

/-! ## Amounts -/

/-- What digits make of a numeral whose digits so far amount to `sum`. -/
def amount (radix sum : Nat) (cs : List Char) : Nat :=
  cs.foldl (fun sum c => sum * radix + (digitValue? radix c).getD 0) sum

theorem amount_cons (h : digitValue? radix c = some d) :
    amount radix sum (c :: cs) = amount radix (sum * radix + d) cs := by
  rw [amount, List.foldl_cons, h]
  rfl

theorem le_amount (hradix : 0 < radix) : sum ≤ amount radix sum cs := by
  induction cs generalizing sum with
  | nil => exact Nat.le_refl _
  | cons c rest ih =>
    calc sum ≤ sum * radix := Nat.le_mul_of_pos_right _ hradix
      _ ≤ sum * radix + (digitValue? radix c).getD 0 := Nat.le_add_right ..
      _ ≤ amount radix sum (c :: rest) := ih

/-- What digits amount to is below the power of the radix for their number. -/
theorem amount_lt (h : ∀ c ∈ cs, IsDigit radix c) :
    amount radix sum cs < (sum + 1) * radix ^ cs.length := by
  induction cs generalizing sum with
  | nil =>
    rw [List.length_nil, Nat.pow_zero, Nat.mul_one]
    exact Nat.lt_succ_self sum
  | cons c rest ih =>
    obtain ⟨hc, hrest⟩ := List.forall_mem_cons.1 h
    obtain ⟨d, hd⟩ := Option.isSome_iff_exists.1 hc
    have hlt : d < radix := (digitValue?_eq_some_iff.1 hd).1
    have hsum : sum * radix + d + 1 ≤ (sum + 1) * radix := by
      rw [Nat.succ_mul]
      omega
    calc amount radix sum (c :: rest) = amount radix (sum * radix + d) rest := amount_cons hd
      _ < (sum * radix + d + 1) * radix ^ rest.length := ih hrest
      _ ≤ (sum + 1) * radix * radix ^ rest.length := Nat.mul_le_mul_right _ hsum
      _ = (sum + 1) * radix ^ (c :: rest).length := by
        rw [List.length_cons, Nat.pow_succ', Nat.mul_assoc]

/-- The digits of `cs` amount to `n`. -/
structure Spells (radix : Nat) (cs : List Char) (n : Nat) : Prop where
  ne_nil : cs ≠ []
  digits : ∀ c ∈ cs, IsDigit radix c
  amount_eq : amount radix 0 cs = n

/-! ## Signs -/

/-- A numeral without its sign. A sign that nothing follows is none. -/
def unsigned : List Char → List Char
  | '+' :: c :: rest => c :: rest
  | cs => cs

theorem unsigned_of_ne (h : ∀ c rest, cs ≠ '+' :: c :: rest) : unsigned cs = cs := by
  fun_cases unsigned cs with
  | case1 c rest => exact absurd rfl (h c rest)
  | case2 => rfl

theorem length_unsigned_le : (unsigned cs).length ≤ cs.length := by
  fun_cases unsigned cs with
  | case1 c rest => exact Nat.le_succ _
  | case2 => exact Nat.le_refl _

theorem unsigned_ne_nil (h : cs ≠ []) : unsigned cs ≠ [] := by
  fun_cases unsigned cs with
  | case1 c rest => exact List.cons_ne_nil c rest
  | case2 => exact h

theorem mem_unsigned (h : c ∈ cs) : c = '+' ∨ c ∈ unsigned cs := by
  fun_cases unsigned cs with
  | case1 d rest => exact List.mem_cons.1 h
  | case2 => exact .inr h

theorem head?_ne_plus (h : ∀ c ∈ cs, IsDigit radix c) : cs.head? ≠ some '+' :=
  fun hplus => not_isDigit_plus (h '+' (List.mem_of_mem_head? hplus))

theorem unsigned_of_head? (h : cs.head? ≠ some '+') : unsigned cs = cs := by
  apply unsigned_of_ne
  rintro c rest rfl
  exact h rfl

theorem unsigned_eq_self (h : ∀ c ∈ cs, IsDigit radix c) : unsigned cs = cs :=
  unsigned_of_head? (head?_ne_plus h)

/-! ## Reading -/

theorem readDigits_eq_ok_iff (hradix : 0 < radix) (hsum : sum ≤ limit) :
    readDigits radix limit sum cs = .ok n ↔
      (∀ c ∈ cs, IsDigit radix c) ∧ amount radix sum cs = n ∧ n ≤ limit := by
  induction cs generalizing sum with
  | nil =>
    constructor
    · intro h
      obtain rfl := Except.ok.inj h
      exact ⟨nofun, rfl, hsum⟩
    · rintro ⟨-, rfl, -⟩
      rfl
  | cons c rest ih =>
    rw [readDigits, List.forall_mem_cons, IsDigit]
    cases hd : digitValue? radix c with
    | none => exact ⟨nofun, fun ⟨⟨h, _⟩, _⟩ => nomatch h⟩
    | some d =>
      rw [amount_cons hd]
      dsimp only
      split
      case isTrue hnext =>
        rw [ih hnext]
        exact and_congr_left fun _ => ⟨fun h => ⟨rfl, h⟩, And.right⟩
      case isFalse hnext =>
        -- more digits do not make the amount smaller
        constructor
        · exact nofun
        · rintro ⟨-, rfl, hlimit⟩
          exact absurd (Nat.le_trans (le_amount hradix) hlimit) hnext

/-- What is read from a numeral is what its digits spell, with a sign or without. -/
theorem read_eq_ok_iff (hradix : 0 < radix) :
    read radix limit cs = .ok n ↔ Spells radix (unsigned cs) n ∧ n ≤ limit := by
  have hdigits (cs : List Char) (hne : cs ≠ []) :
      readDigits radix limit 0 cs = .ok n ↔ Spells radix cs n ∧ n ≤ limit := by
    rw [readDigits_eq_ok_iff hradix (Nat.zero_le limit), ← and_assoc]
    exact and_congr_left fun _ => ⟨fun ⟨h, h'⟩ => ⟨hne, h, h'⟩, fun h => ⟨h.digits, h.amount_eq⟩⟩
  fun_cases read radix limit cs with
  | case1 => exact ⟨nofun, fun h => absurd rfl h.1.ne_nil⟩
  | case2 c rest => exact hdigits _ (List.cons_ne_nil c rest)
  | case3 cs hne hplus =>
    rw [unsigned_of_ne hplus]
    exact hdigits cs hne

/-! ## Writing -/

/-- A numeral that spells a number is read as the number. -/
theorem Spells.read_eq (h : Spells radix cs n) (hradix : 0 < radix) (hlimit : n ≤ limit) :
    read radix limit cs = .ok n := by
  rw [read_eq_ok_iff hradix, unsigned_eq_self h.digits]
  exact ⟨h, hlimit⟩

theorem spells_singleton (h : digitValue? radix c = some d) : Spells radix [c] d := by
  refine ⟨List.cons_ne_nil _ _, List.forall_mem_singleton.2 (isDigit_of_digitValue? h), ?_⟩
  rw [amount_cons h, Nat.zero_mul, Nat.zero_add]
  rfl

/-- One more digit makes the number greater by the radix. -/
theorem Spells.append_digit (h : Spells radix cs n) (hd : digitValue? radix c = some d) :
    Spells radix (cs ++ [c]) (n * radix + d) := by
  refine ⟨List.append_ne_nil_of_left_ne_nil h.ne_nil _, ?_, ?_⟩
  · intro x hx
    rcases List.mem_append.1 hx with hx | hx
    · exact h.digits x hx
    · obtain rfl := List.mem_singleton.1 hx
      exact isDigit_of_digitValue? hd
  · have happend : amount radix 0 (cs ++ [c]) = amount radix (amount radix 0 cs) [c] := List.foldl_append
    rw [happend, h.amount_eq, amount_cons hd]
    rfl

theorem spells_toDigits (hradix : 1 < radix) (hmax : radix ≤ 16) (n : Nat) :
    Spells radix (Nat.toDigits radix n) n := by
  induction n using Nat.strongRecOn with
  | ind n ih =>
    rcases Nat.lt_or_ge n radix with hlt | hge
    · rw [Nat.toDigits_of_lt_base hlt]
      exact spells_singleton (digitValue?_digitChar hmax hlt)
    · have hpos : 0 < radix := Nat.zero_lt_of_lt hradix
      have hfront := ih (n / radix) (Nat.div_lt_self (Nat.lt_of_lt_of_le hpos hge) hradix)
      have hlast := digitValue?_digitChar hmax (Nat.mod_lt n hpos)
      have hspells := hfront.append_digit hlast
      rwa [Nat.div_add_mod', ← Nat.toDigits_of_base_le hradix hge] at hspells

theorem spells_repr (n : Nat) : Spells 10 n.repr.toList n := by
  rw [Nat.repr_eq_ofList_toDigits, String.toList_ofList]
  exact spells_toDigits (by decide) (by decide) n

/-- Zeros before a numeral do not change what it spells. -/
theorem Spells.zeros (h : Spells radix cs n) (hradix : 1 < radix) (hmax : radix ≤ 16) (count : Nat) :
    Spells radix (List.replicate count '0' ++ cs) n := by
  have hzero : digitValue? radix '0' = some 0 := digitValue?_digitChar (d := 0) hmax (by omega)
  induction count with
  | zero => exact h
  | succ count ih =>
    rw [List.replicate_succ, List.cons_append]
    refine ⟨List.cons_ne_nil _ _, List.forall_mem_cons.2 ⟨isDigit_of_digitValue? hzero, ih.digits⟩, ?_⟩
    rw [amount_cons hzero, Nat.zero_mul]
    exact ih.amount_eq

theorem spells_hex (width n : Nat) : Spells 16 (hex width n).toList n := by
  rw [hex, String.toList_ofList]
  exact (spells_toDigits (by decide) (by decide) n).zeros (by decide) (by decide) _

/-- A number that has no more digits than it should is filled to that many. -/
theorem length_hex {width : Nat} (hwidth : 0 < width) (h : n < 16 ^ width) :
    (hex width n).toList.length = width := by
  have hlength := (Nat.length_toDigits_le_iff (by decide) hwidth).2 h
  rw [hex, String.toList_ofList, List.length_append, List.length_replicate]
  exact Nat.sub_add_cancel hlength

end Numeral

end ModuleLinker
