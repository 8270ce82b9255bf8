import ModuleLinker.Proofs.Identity.DisplayNames

namespace ModuleLinker

/-! # The texts that identities are read from

A version should consist of decimal numbers of 16 bits and a token of sixteen hexadecimal digits. Both are
read number by number, and the reader of numbers takes a plus sign before the first digit. So the numbers of
a version and the pairs of digits of a token may each begin with one: this is all that is accepted beyond what
should be (`Identity.parse_accepts`).
-/

namespace Numeral

variable {cs : List Char} {sum : Nat}

/-- A decimal number of 16 bits: digits, one at least, and nothing else. -/
structure IsDecimal (cs : List Char) : Prop where
  ne_nil : cs ≠ []
  digits : ∀ c ∈ cs, c.isDigit
  range : Nat.ofDigitChars 10 cs 0 ≤ 0xFFFF

instance (cs : List Char) : Decidable (IsDecimal cs) :=
  decidable_of_iff (cs ≠ [] ∧ cs.all Char.isDigit ∧ Nat.ofDigitChars 10 cs 0 ≤ 0xFFFF)
    ⟨fun ⟨a, b, c⟩ => ⟨a, List.all_eq_true.1 b, c⟩, fun ⟨a, b, c⟩ => ⟨a, List.all_eq_true.2 b, c⟩⟩

theorem amount_ten (h : ∀ c ∈ cs, c.isDigit) : amount 10 sum cs = Nat.ofDigitChars 10 cs sum := by
  induction cs generalizing sum with
  | nil => rfl
  | cons c rest ih =>
    obtain ⟨hc, hrest⟩ := List.forall_mem_cons.1 h
    obtain ⟨hlow, hhigh⟩ := Char.isDigit_iff_toNat.1 hc
    have hvalue : digitValue? 10 c = some (c.toNat - '0'.toNat) :=
      digitValue?_eq_some_iff.2 ⟨by simp only [Char.reduceToNat] at *; omega, .inl ⟨hlow, hhigh, rfl⟩⟩
    rw [amount_cons hvalue, ih hrest, Nat.mul_comm]
    rfl

/-- The numerals of numbers of 16 bits. -/
theorem exists_spells_ten_iff : (∃ n : UInt16, Spells 10 cs n.toNat) ↔ IsDecimal cs := by
  constructor
  · rintro ⟨n, h⟩
    have hdigits : ∀ c ∈ cs, c.isDigit := fun c hc => isDigit_ten_iff.1 (h.digits c hc)
    refine ⟨h.ne_nil, hdigits, ?_⟩
    rw [← amount_ten hdigits, h.amount_eq]
    exact Nat.le_of_lt_succ n.toNat_lt
  · intro h
    refine ⟨UInt16.ofNat (Nat.ofDigitChars 10 cs 0), h.ne_nil,
      fun c hc => isDigit_ten_iff.2 (h.digits c hc), ?_⟩
    rw [amount_ten h.digits, UInt16.toNat_ofNat_of_lt' (Nat.lt_succ_of_le h.range)]

/-- Two digits amount to a byte, so they are read as one, whatever they are. -/
theorem exists_read_pair_iff (h : cs.length = 2) : (∃ n, read 16 0xFF cs = .ok n) ↔
    ∀ c ∈ unsigned cs, isHexDigit c := by
  have hread (n : Nat) : read 16 0xFF cs = .ok n ↔ Spells 16 (unsigned cs) n ∧ n ≤ 0xFF :=
    read_eq_ok_iff (by decide)
  have hne : cs ≠ [] := List.ne_nil_of_length_pos (by omega)
  constructor
  · rintro ⟨n, hn⟩ c hc
    exact isDigit_sixteen_iff.1 (((hread n).1 hn).1.digits c hc)
  · intro hdigits
    have hall : ∀ c ∈ unsigned cs, IsDigit 16 c := fun c hc =>
      isDigit_sixteen_iff.2 (hdigits c hc)
    have hlt : amount 16 0 (unsigned cs) < 16 ^ 2 :=
      calc amount 16 0 (unsigned cs) < (0 + 1) * 16 ^ (unsigned cs).length := amount_lt hall
        _ ≤ (0 + 1) * 16 ^ 2 :=
          Nat.mul_le_mul_left _ (Nat.pow_le_pow_right (by decide) (h ▸ length_unsigned_le))
        _ = 16 ^ 2 := Nat.one_mul _
    exact ⟨_, (hread _).2 ⟨⟨unsigned_ne_nil hne, hall, rfl⟩, Nat.le_of_lt_succ hlt⟩⟩

/-- A decimal number has no sign, and is what is left where there is none to be taken off. -/
theorem isDecimal_iff : IsDecimal cs ↔ IsDecimal (unsigned cs) ∧ cs.head? ≠ some '+' := by
  constructor
  · intro h
    have hhead : cs.head? ≠ some '+' := head?_ne_plus fun c hc => isDigit_ten_iff.2 (h.digits c hc)
    rw [unsigned_of_head? hhead]
    exact ⟨h, hhead⟩
  · rintro ⟨h, hhead⟩
    rwa [unsigned_of_head? hhead] at h

end Numeral

/-! ## Versions -/

namespace Version

variable {value : String} {numeral : List Char → Prop}

/-- At most four numerals with points between them. Blanks may stand around each. -/
structure OfNumerals (numeral : List Char → Prop) (value : String) : Prop where
  count : (Text.split (· == '.') value).length ≤ 4
  numerals : ∀ part ∈ Text.split (· == '.') value, numeral (Text.trim part).toList

instance [DecidablePred numeral] (value : String) : Decidable (OfNumerals numeral value) :=
  decidable_of_iff ((Text.split (· == '.') value).length ≤ 4 ∧
      ∀ part ∈ Text.split (· == '.') value, numeral (Text.trim part).toList)
    ⟨fun ⟨a, b⟩ => ⟨a, b⟩, fun ⟨a, b⟩ => ⟨a, b⟩⟩

/-- What a version should be. -/
def WellFormed (value : String) : Prop := OfNumerals Numeral.IsDecimal value

/-- What is read as a version: a plus sign may stand before each number. -/
def Readable (value : String) : Prop := OfNumerals (fun cs => Numeral.IsDecimal (Numeral.unsigned cs)) value

/-- No number of a version begins with a plus sign. -/
def Signless (value : String) : Prop :=
  ∀ part ∈ Text.split (· == '.') value, (Text.trim part).toList.head? ≠ some '+'

instance (value : String) : Decidable (WellFormed value) := inferInstanceAs (Decidable (OfNumerals _ _))

instance (value : String) : Decidable (Signless value) := List.decidableBAll _ _

theorem readable_iff : Readable value ↔ ∃ v, parse value = .ok v := by
  rw [exists_parse_iff]
  simp only [parsePart_eq_ok_iff, Numeral.exists_spells_ten_iff]
  exact ⟨fun h => ⟨h.count, h.numerals⟩, fun h => ⟨h.1, h.2⟩⟩

theorem wellFormed_iff : WellFormed value ↔ Readable value ∧ Signless value := by
  constructor
  · intro h
    exact ⟨⟨h.count, fun part hpart => (Numeral.isDecimal_iff.1 (h.numerals part hpart)).1⟩,
      fun part hpart => (Numeral.isDecimal_iff.1 (h.numerals part hpart)).2⟩
  · rintro ⟨h, hsign⟩
    exact ⟨h.count, fun part hpart => Numeral.isDecimal_iff.2 ⟨h.numerals part hpart, hsign part hpart⟩⟩

end Version

/-! ## Tokens -/

namespace StrongName

variable {value : String} {cs : List Char}

/-- What a token should be: nothing, the word for none, or sixteen hexadecimal digits. -/
def WellFormedToken (value : String) : Prop :=
  value = "" ∨ value = "null" ∨ value.toList.length = 16 ∧ ∀ c ∈ value.toList, Numeral.isHexDigit c

/-- What is read as a token: a plus sign may stand for the first digit of each pair. -/
def ReadableToken (value : String) : Prop :=
  value = "" ∨ value = "null" ∨ value.toList.length = 16 ∧
    ∀ pair ∈ pairs value.toList, ∀ c ∈ Numeral.unsigned pair, Numeral.isHexDigit c

/-- No pair of digits of a token begins with a plus sign. -/
def SignlessToken (value : String) : Prop := ∀ pair ∈ pairs value.toList, pair.head? ≠ some '+'

instance (value : String) : Decidable (WellFormedToken value) :=
  decidable_of_iff (value = "" ∨ value = "null" ∨
      value.toList.length = 16 ∧ value.toList.all Numeral.isHexDigit)
    (by rw [WellFormedToken, List.all_eq_true])

instance (value : String) : Decidable (SignlessToken value) := List.decidableBAll _ _

theorem length_of_mem_pairs {pair : List Char} (h : pair ∈ pairs cs) : pair.length = 2 := by
  fun_induction pairs cs with
  | case1 high low rest ih =>
    rcases List.mem_cons.1 h with rfl | h
    · rfl
    · exact ih h
  | case2 => exact nomatch h

/-- Of an even number of characters each is in a pair. -/
theorem flatten_pairs (h : cs.length % 2 = 0) : (pairs cs).flatten = cs := by
  fun_induction pairs cs with
  | case1 high low rest ih =>
    have hrest : rest.length % 2 = 0 := by
      rw [List.length_cons, List.length_cons] at h
      omega
    rw [List.flatten_cons, ih hrest]
    rfl
  | case2 cs hcs =>
    match cs with
    | [] => rfl
    | [_] => exact nomatch h
    | high :: low :: rest => exact absurd rfl (hcs high low rest)

theorem exists_mem_pairs_iff {c : Char} (h : cs.length = 16) :
    (∃ pair ∈ pairs cs, c ∈ pair) ↔ c ∈ cs := by
  rw [← List.mem_flatten, flatten_pairs (by rw [h])]

theorem wellFormedToken_iff : WellFormedToken value ↔ ReadableToken value ∧ SignlessToken value := by
  constructor
  · rintro (rfl | rfl | ⟨hlength, hdigits⟩)
    · exact ⟨.inl rfl, by decide⟩
    · exact ⟨.inr (.inl rfl), by decide⟩
    · have hpairs (pair : List Char) (hpair : pair ∈ pairs value.toList) :
          ∀ c ∈ pair, Numeral.IsDigit 16 c := fun c hc => by
        rw [Numeral.isDigit_sixteen_iff]
        exact hdigits c ((exists_mem_pairs_iff hlength).1 ⟨pair, hpair, hc⟩)
      refine ⟨.inr (.inr ⟨hlength, fun pair hpair c hc => ?_⟩), fun pair hpair =>
        Numeral.head?_ne_plus (hpairs pair hpair)⟩
      rw [Numeral.unsigned_eq_self (hpairs pair hpair)] at hc
      exact Numeral.isDigit_sixteen_iff.1 (hpairs pair hpair c hc)
  · rintro ⟨rfl | rfl | ⟨hlength, hdigits⟩, hsign⟩
    · exact .inl rfl
    · exact .inr (.inl rfl)
    · refine .inr (.inr ⟨hlength, fun c hc => ?_⟩)
      obtain ⟨pair, hpair, hc⟩ := (exists_mem_pairs_iff hlength).2 hc
      rw [← Numeral.unsigned_of_head? (hsign pair hpair)] at hc
      exact hdigits pair hpair c hc

theorem readableToken_iff :
    ReadableToken value ↔ value = "" ∨ value = "null" ∨ ∃ t, parseToken value = .ok t := by
  rw [exists_parseToken_iff, ReadableToken]
  have hpairs : (∀ pair ∈ pairs value.toList, ∃ n, Numeral.read 16 0xFF pair = .ok n) ↔
      ∀ pair ∈ pairs value.toList, ∀ c ∈ Numeral.unsigned pair, Numeral.isHexDigit c :=
    forall₂_congr fun pair hpair => Numeral.exists_read_pair_iff (length_of_mem_pairs hpair)
  rw [hpairs]
  refine or_congr_right (or_congr_right (and_congr_left fun hdigits => ?_))
  constructor
  · intro hlength
    have hascii : ∀ c ∈ value.toList, c.toNat < 0x80 := by
      intro c hc
      obtain ⟨pair, hpair, hc⟩ := (exists_mem_pairs_iff hlength).2 hc
      rcases Numeral.mem_unsigned hc with rfl | hc
      · decide
      · exact (Numeral.isDigit_sixteen_iff.2 (hdigits pair hpair c hc)).isAscii
    exact ⟨(utf8ByteSize_of_isAscii hascii).trans hlength, hascii⟩
  · rintro ⟨hsize, hascii⟩
    exact (utf8ByteSize_of_isAscii hascii).symm.trans hsize

end StrongName

/-! ## Display names -/

namespace Identity

variable {i : Identity} {part s : String} {version token : String → Prop}

/-- The values that the parts of a display name state behind `lead`. -/
def stated (lead s : String) : List String := (parts s).tail.filterMap (Text.after? lead)

/-- Every version and every token that a display name states is one of these. -/
structure States (version token : String → Prop) (s : String) : Prop where
  versions : ∀ value ∈ stated "Version=" s, version value
  tokens : ∀ value ∈ stated "PublicKeyToken=" s, token value

instance [DecidablePred version] [DecidablePred token] (s : String) : Decidable (States version token s) :=
  decidable_of_iff ((∀ value ∈ stated "Version=" s, version value) ∧
      ∀ value ∈ stated "PublicKeyToken=" s, token value)
    ⟨fun ⟨a, b⟩ => ⟨a, b⟩, fun ⟨a, b⟩ => ⟨a, b⟩⟩

theorem forall_mem_stated {name : String} {rest : List String} {p : String → Prop} {lead : String}
    (h : parts s = name :: rest) : (∀ value ∈ stated lead s, p value) ↔
      ∀ part ∈ rest, ∀ value, Text.after? lead part = some value → p value := by
  rw [stated, h, List.tail_cons]
  constructor
  · intro hall part hpart value hvalue
    exact hall value (List.mem_filterMap.2 ⟨part, hpart, hvalue⟩)
  · intro hall value hvalue
    obtain ⟨part, hpart, hvalue⟩ := List.mem_filterMap.1 hvalue
    exact hall part hpart value hvalue

/-- Whether a part is read depends on the version or the token that it states alone, not on the parts
before it. -/
theorem exists_refine_iff (i : Identity) (part : String) : (∃ j, refine i part = .ok j) ↔
    (∀ value, Text.after? "Version=" part = some value → Version.Readable value) ∧
      ∀ value, Text.after? "PublicKeyToken=" part = some value → StrongName.ReadableToken value := by
  obtain ⟨value, rfl⟩ | ⟨value, rfl⟩ | ⟨value, rfl⟩ | ⟨hversion, hculture, htoken⟩ := part_cases part
  · have htoken : Text.after? "PublicKeyToken=" ("Version=" ++ value) = none :=
      Text.after?_append_of_head rfl rfl (by decide)
    rw [refine_version, exists_map_eq_ok, ← Version.readable_iff, Text.after?_append, htoken]
    constructor
    · intro h
      exact ⟨fun _ hvalue => Option.some.inj hvalue ▸ h, nofun⟩
    · intro h
      exact h.1 value rfl
  · have hversion : Text.after? "Version=" ("Culture=" ++ value) = none :=
      Text.after?_append_of_head rfl rfl (by decide)
    have htoken : Text.after? "PublicKeyToken=" ("Culture=" ++ value) = none :=
      Text.after?_append_of_head rfl rfl (by decide)
    rw [refine_culture, hversion, htoken]
    exact ⟨fun _ => ⟨nofun, nofun⟩, fun _ => ⟨_, rfl⟩⟩
  · have hversion : Text.after? "Version=" ("PublicKeyToken=" ++ value) = none :=
      Text.after?_append_of_head rfl rfl (by decide)
    have hread : (∃ j, refine i ("PublicKeyToken=" ++ value) = .ok j) ↔
        StrongName.ReadableToken value := by
      rw [refine_token, StrongName.readableToken_iff]
      split
      case isTrue h => exact ⟨fun _ => h.elim (.inr ∘ .inl) .inl, fun _ => ⟨i, rfl⟩⟩
      case isFalse h =>
        obtain ⟨hnull, hempty⟩ := not_or.1 h
        rw [exists_map_eq_ok, or_iff_right hempty, or_iff_right hnull]
    rw [hread, hversion, Text.after?_append]
    constructor
    · intro h
      exact ⟨nofun, fun _ hvalue => Option.some.inj hvalue ▸ h⟩
    · intro h
      exact h.2 value rfl
  · rw [refine_other hversion hculture htoken, hversion, htoken]
    exact ⟨fun _ => ⟨nofun, nofun⟩, fun _ => ⟨i, rfl⟩⟩

theorem exists_parse_iff : (∃ i, parse s = .ok i) ↔
    (parts s).head? ≠ some "" ∧ States Version.Readable StrongName.ReadableToken s := by
  obtain ⟨name, rest, hparts⟩ := exists_parts s
  have hstates : States Version.Readable StrongName.ReadableToken s ↔ ∀ part ∈ rest,
      (∀ value, Text.after? "Version=" part = some value → Version.Readable value) ∧
        ∀ value, Text.after? "PublicKeyToken=" part = some value → StrongName.ReadableToken value := by
    rw [forall₂_and, ← forall_mem_stated hparts, ← forall_mem_stated hparts]
    exact ⟨fun h => ⟨h.versions, h.tokens⟩, fun h => ⟨h.1, h.2⟩⟩
  rw [parse_of_parts hparts, hparts, hstates, List.head?_cons]
  split
  case isTrue h => exact ⟨nofun, fun h' => absurd (congrArg some h) h'.1⟩
  case isFalse h =>
    rw [exists_foldlM_iff exists_refine_iff]
    exact (and_iff_right fun hname => h (Option.some.inj hname)).symm

theorem states_wellFormed_iff : States Version.WellFormed StrongName.WellFormedToken s ↔
    States Version.Readable StrongName.ReadableToken s ∧
      States Version.Signless StrongName.SignlessToken s := by
  constructor
  · intro h
    exact ⟨⟨fun value hvalue => (Version.wellFormed_iff.1 (h.versions value hvalue)).1,
        fun value hvalue => (StrongName.wellFormedToken_iff.1 (h.tokens value hvalue)).1⟩,
      ⟨fun value hvalue => (Version.wellFormed_iff.1 (h.versions value hvalue)).2,
        fun value hvalue => (StrongName.wellFormedToken_iff.1 (h.tokens value hvalue)).2⟩⟩
  · rintro ⟨h, hsign⟩
    exact ⟨fun value hvalue => Version.wellFormed_iff.2 ⟨h.versions value hvalue, hsign.versions value hvalue⟩,
      fun value hvalue =>
        StrongName.wellFormedToken_iff.2 ⟨h.tokens value hvalue, hsign.tokens value hvalue⟩⟩

/-- The texts that are read are those with a name whose versions and tokens can be read, that is, are what
they should be once signs are taken off their numerals. What is read is what it should be unless there are
signs. Every other text is refused as malformed. -/
theorem parse_accepts (s : String) :
    ((∃ i, parse s = .ok i) ↔
      (parts s).head? ≠ some "" ∧ States Version.Readable StrongName.ReadableToken s) ∧
    (∀ i, parse s = .ok i → (States Version.WellFormed StrongName.WellFormedToken s ↔
      States Version.Signless StrongName.SignlessToken s)) ∧
    ∀ fault, parse s = .error fault → ∃ cause, fault = .malformed cause := by
  refine ⟨exists_parse_iff, fun i hi => ?_, fun fault hfault => ?_⟩
  · rw [states_wellFormed_iff]
    exact and_iff_right (exists_parse_iff.1 ⟨i, hi⟩).2
  · have harea : fault.area = .malformed := parse_fails s fault hfault
    cases fault with
    | malformed cause => exact ⟨cause, rfl⟩
    | _ => exact nomatch harea

theorem parse_accepts_library :
    (∃ i, parse "Library, Version=4.0, PublicKeyToken=b77a5c561934E089" = .ok i) ∧
      States Version.WellFormed StrongName.WellFormedToken
        "Library, Version=4.0, PublicKeyToken=b77a5c561934E089" ∧
      parse "Library, Version=4.x" = .error (.malformed (.versionPart "x" .invalidDigit)) ∧
      ∃ cause, Fault.malformed (.versionPart "x" .invalidDigit) = .malformed cause := by
  have hread : parse "Library, Version=4.0, PublicKeyToken=b77a5c561934E089" =
      .ok ⟨"Library", ⟨4, 0, 0, 0⟩, none, some (.token 0x89E03419565C7AB7)⟩ := rfl
  have herror : parse "Library, Version=4.x" = .error (.malformed (.versionPart "x" .invalidDigit)) := rfl
  have hsign : States Version.Signless StrongName.SignlessToken
      "Library, Version=4.0, PublicKeyToken=b77a5c561934E089" := by decide +kernel
  exact ⟨⟨_, hread⟩, ((parse_accepts _).2.1 _ hread).2 hsign, herror, (parse_accepts _).2.2 _ herror⟩

/-- A plus sign is read before a number of a version, and for the first digit of each byte of a token. -/
theorem parse_accepts_signs :
    ((∃ i, parse "Library, Version=+1" = .ok i) ∧
      ¬States Version.WellFormed StrongName.WellFormedToken "Library, Version=+1") ∧
    (∃ i, parse "Library, PublicKeyToken=+f+f+f+f+f+f+f+f" = .ok i) ∧
      ¬States Version.WellFormed StrongName.WellFormedToken "Library, PublicKeyToken=+f+f+f+f+f+f+f+f" :=
  ⟨⟨⟨_, rfl⟩, by decide +kernel⟩, ⟨_, rfl⟩, by decide +kernel⟩

end Identity

end ModuleLinker
