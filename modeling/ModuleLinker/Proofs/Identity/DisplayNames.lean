import ModuleLinker.Identity.Basic
import ModuleLinker.Proofs.Bytes.ReadBack
import ModuleLinker.Proofs.Computation
import ModuleLinker.Proofs.Text.Cutting
import ModuleLinker.Proofs.Text.Numerals

namespace ModuleLinker

/-! # Display names

Which texts versions and tokens are read from, and what a single part of a display name does to the identity
that was read so far. What is written for a version or a token is read back as it.

The display name of an identity is cut at its commas into the parts it was put together from, unless the
identity itself has a comma where none should be. Read again, the parts say all of the identity but the public
key, of which the token is left. Every identity that was read from a text has a display name that can be cut
(`Identity.Restorable`): each part that is read keeps this, so a second reading gives what the first one
gave.
-/

/-! ## Versions -/

namespace Version

variable {part s : String} {parts : List String} {room : Nat}

theorem parsePart_eq_ok_iff {n : UInt16} : parsePart part = .ok n ↔
    Numeral.Spells 10 (Numeral.unsigned (Text.trim part).toList) n.toNat := by
  have hread (m : Nat) : Numeral.read 10 0xFFFF (Text.trim part).toList = .ok m ↔
      Numeral.Spells 10 (Numeral.unsigned (Text.trim part).toList) m ∧ m ≤ 0xFFFF :=
    Numeral.read_eq_ok_iff (by decide)
  have hn : n.toNat ≤ 0xFFFF := Nat.le_of_lt_succ n.toNat_lt
  unfold parsePart
  constructor
  · intro h
    split at h
    case h_1 m hm =>
      obtain ⟨hspells, hmax⟩ := (hread m).1 hm
      obtain rfl := Except.ok.inj h
      rwa [UInt16.toNat_ofNat_of_lt' (Nat.lt_succ_of_le hmax)]
    case h_2 => exact nomatch h
  · intro h
    rw [(hread _).2 ⟨h, hn⟩]
    exact congrArg _ UInt16.ofNat_toNat

/-- The digits of a number of a version. -/
theorem spells_toString (n : UInt16) : Numeral.Spells 10 (toString n).toList n.toNat :=
  Numeral.spells_repr n.toNat

theorem parsePart_toString (n : UInt16) : parsePart (toString n) = .ok n := by
  have hspells := spells_toString n
  have htrim : Text.trim (toString n) = toString n :=
    Text.trim_eq_self_of_forall fun c hc => (hspells.digits c hc).not_isBlank
  rw [parsePart_eq_ok_iff, htrim, Numeral.unsigned_eq_self hspells.digits]
  exact hspells

theorem exists_parseParts_iff (whole : String) : (∃ ns, parseParts whole room parts = .ok ns) ↔
    parts.length ≤ room ∧ ∀ part ∈ parts, ∃ n, parsePart part = .ok n := by
  fun_induction parseParts whole room parts with
  | case1 room => exact ⟨fun _ => ⟨Nat.zero_le _, nofun⟩, fun _ => ⟨[], rfl⟩⟩
  | case2 part rest => exact ⟨nofun, fun h => absurd h.1 (Nat.not_succ_le_zero _)⟩
  | case3 room part rest ih =>
    rw [List.forall_mem_cons, List.length_cons, Nat.add_le_add_iff_right, and_left_comm, ← ih]
    constructor
    · rintro ⟨ns, hns⟩
      obtain ⟨n, hn, h⟩ := bind_eq_ok.1 hns
      obtain ⟨ns, hrest, -⟩ := bind_eq_ok.1 h
      exact ⟨⟨n, hn⟩, ns, hrest⟩
    · rintro ⟨⟨n, hn⟩, ns, hrest⟩
      exact ⟨n :: ns, bind_eq_ok.2 ⟨n, hn, bind_eq_ok.2 ⟨ns, hrest, rfl⟩⟩⟩

/-- The texts that versions are read from. -/
theorem exists_parse_iff : (∃ v, parse s = .ok v) ↔ (Text.split (· == '.') s).length ≤ 4 ∧
    ∀ part ∈ Text.split (· == '.') s, ∃ n, parsePart part = .ok n := by
  rw [← exists_parseParts_iff s]
  constructor
  · rintro ⟨v, hv⟩
    obtain ⟨ns, hns, -⟩ := bind_eq_ok.1 hv
    exact ⟨ns, hns⟩
  · rintro ⟨ns, hns⟩
    exact ⟨ofParts ns, bind_eq_ok.2 ⟨ns, hns, rfl⟩⟩

/-- The text of a version, cut at its points. -/
theorem split_text (v : Version) : Text.split (· == '.') v.text =
    [toString v.major, toString v.minor, toString v.build, toString v.revision] := by
  have htext : v.text = toString v.major ++ (String.singleton '.' ++ (toString v.minor ++
      (String.singleton '.' ++ (toString v.build ++ (String.singleton '.' ++ toString v.revision))))) := by
    rw [← String.append_assoc, ← String.append_assoc, ← String.append_assoc, ← String.append_assoc,
      ← String.append_assoc]
    rfl
  have hpoint (n : UInt16) : ∀ c ∈ (toString n).toList, ¬(c == '.') := by
    intro c hc h
    obtain rfl := eq_of_beq h
    exact absurd ((spells_toString n).digits '.' hc) (by decide)
  rw [htext, Text.split_append (hpoint _) rfl, Text.split_append (hpoint _) rfl,
    Text.split_append (hpoint _) rfl, Text.split_of_forall (hpoint _)]

/-- What is written for a version is read as it. -/
theorem parse_text (v : Version) : parse v.text = .ok v := by
  rw [parse, split_text]
  simp only [parseParts, parsePart_toString]
  rfl

theorem parsePart_fails (part : String) : FailsOnly (·.area = .malformed) (parsePart part) := by
  unfold parsePart
  split
  · exact .ok _
  · exact .error rfl

theorem parse_fails (s : String) : FailsOnly (·.area = .malformed) (parse s) := by
  have hparts (whole : String) (room : Nat) (parts : List String) :
      FailsOnly (·.area = .malformed) (parseParts whole room parts) := by
    fun_induction parseParts whole room parts with
    | case1 => exact .ok _
    | case2 => exact .error rfl
    | case3 room part rest ih =>
      exact FailsOnly.stepwise.bind (parsePart_fails part) fun _ =>
        FailsOnly.stepwise.bind ih fun _ => .ok _
  exact FailsOnly.stepwise.bind (hparts s 4 _) fun _ => .ok _

end Version

/-! ## Tokens of public keys -/

namespace StrongName

variable {s : String} {cs : List Char}

/-- The numerals of two digits that a token is made of. -/
def pairs : List Char → List (List Char)
  | high :: low :: rest => [high, low] :: pairs rest
  | _ => []

theorem exists_parseTokenBytes_iff (whole : String) : (∃ bs, parseTokenBytes whole cs = .ok bs) ↔
    ∀ pair ∈ pairs cs, ∃ n, Numeral.read 16 0xFF pair = .ok n := by
  fun_induction parseTokenBytes whole cs with
  | case1 high low rest fault hfault =>
    rw [pairs, List.forall_mem_cons]
    exact ⟨nofun, fun ⟨⟨n, hn⟩, _⟩ => nomatch hfault.symm.trans hn⟩
  | case2 high low rest n hn ih =>
    rw [pairs, List.forall_mem_cons, ← ih]
    constructor
    · rintro ⟨bs, hbs⟩
      obtain ⟨bs, hrest, -⟩ := bind_eq_ok.1 hbs
      exact ⟨⟨n, hn⟩, bs, hrest⟩
    · rintro ⟨-, bs, hrest⟩
      exact ⟨UInt8.ofNat n :: bs, bind_eq_ok.2 ⟨bs, hrest, rfl⟩⟩
  | case3 cs hcs =>
    have hpairs : pairs cs = [] := by
      fun_cases pairs cs with
      | case1 high low rest => exact absurd rfl (hcs high low rest)
      | case2 => rfl
    rw [hpairs]
    exact ⟨fun _ => nofun, fun _ => ⟨[], rfl⟩⟩

/-- The texts that tokens are read from. -/
theorem exists_parseToken_iff : (∃ t, parseToken s = .ok t) ↔
    (s.utf8ByteSize = 16 ∧ ∀ c ∈ s.toList, c.toNat < 0x80) ∧
      ∀ pair ∈ pairs s.toList, ∃ n, Numeral.read 16 0xFF pair = .ok n := by
  have hguard : (s.utf8ByteSize ≠ 16 ∨ s.toList.any (fun c => decide (0x80 ≤ c.toNat))) ↔
      ¬(s.utf8ByteSize = 16 ∧ ∀ c ∈ s.toList, c.toNat < 0x80) := by
    simp only [List.any_eq_true, decide_eq_true_eq, not_and_or, not_forall, Nat.not_lt, exists_prop, ne_eq]
  rw [← exists_parseTokenBytes_iff s]
  unfold parseToken
  split
  case isTrue h => exact ⟨nofun, fun h' => absurd h'.1 (hguard.1 h)⟩
  case isFalse h =>
    rw [hguard, not_not] at h
    rw [and_iff_right h]
    constructor
    · rintro ⟨t, ht⟩
      obtain ⟨bs, hbs, -⟩ := bind_eq_ok.1 ht
      exact ⟨bs, hbs⟩
    · rintro ⟨bs, hbs⟩
      exact ⟨_, bind_eq_ok.2 ⟨bs, hbs, rfl⟩⟩

/-- The bytes that two-digit numerals were written for. -/
theorem parseTokenBytes_hex (whole : String) (bs : Bytes) :
    parseTokenBytes whole (bs.flatMap fun b => (Numeral.hex 2 b.toNat).toList) = .ok bs := by
  induction bs with
  | nil => rfl
  | cons b bs ih =>
    have hread : Numeral.read 16 0xFF (Numeral.hex 2 b.toNat).toList = .ok b.toNat :=
      (Numeral.spells_hex 2 b.toNat).read_eq (by decide) (Nat.le_of_lt_succ b.toNat_lt)
    have hlength : (Numeral.hex 2 b.toNat).toList.length = 2 := Numeral.length_hex (by decide) b.toNat_lt
    obtain ⟨high, low, hpair⟩ := List.length_eq_two.1 hlength
    rw [hpair] at hread
    rw [List.flatMap_cons, hpair, List.cons_append, List.cons_append, List.nil_append, parseTokenBytes,
      hread, ih]
    exact congrArg (fun b => Except.ok (b :: bs)) UInt8.ofNat_toNat

theorem toList_tokenText (t : UInt64) : (tokenText t).toList =
    (Encoding.littleEndian 8 t.toNat).flatMap fun b => (Numeral.hex 2 b.toNat).toList := by
  rw [tokenText, String.toList_join, List.flatMap_map]

theorem isDigit_of_mem_tokenText {t : UInt64} {c : Char} (h : c ∈ (tokenText t).toList) :
    Numeral.IsDigit 16 c := by
  rw [toList_tokenText] at h
  obtain ⟨b, -, hc⟩ := List.mem_flatMap.1 h
  exact (Numeral.spells_hex 2 b.toNat).digits c hc

theorem length_tokenText (t : UInt64) : (tokenText t).toList.length = 16 := by
  have hbytes : (Encoding.littleEndian 8 t.toNat).length = 8 := Encoding.length_littleEndian ..
  have hlength (b : UInt8) : (Numeral.hex 2 b.toNat).toList.length = 2 :=
    Numeral.length_hex (by decide) b.toNat_lt
  rw [toList_tokenText, List.length_flatMap]
  simp only [hlength]
  rw [List.map_const', hbytes]
  rfl

/-- Of texts in ASCII the characters may be counted instead of the bytes. -/
theorem utf8ByteSize_of_isAscii (h : ∀ c ∈ s.toList, c.toNat < 0x80) :
    s.utf8ByteSize = s.toList.length := by
  have hcs (cs : List Char) (h : ∀ c ∈ cs, c.toNat < 0x80) :
      (String.ofList cs).utf8ByteSize = cs.length := by
    induction cs with
    | nil => rfl
    | cons c rest ih =>
      obtain ⟨hc, hrest⟩ := List.forall_mem_cons.1 h
      have hsize : c.utf8Size = 1 := Char.utf8Size_eq_one_iff.2 (Nat.le_of_lt_succ hc)
      rw [String.ofList_cons, String.utf8ByteSize_append, String.utf8ByteSize_singleton, hsize, ih hrest,
        Nat.add_comm, List.length_cons]
  rw [← hcs _ h, String.ofList_toList]

/-- What is written for a token is read as it. -/
theorem parseToken_tokenText (t : UInt64) : parseToken (tokenText t) = .ok t := by
  have hascii : ∀ c ∈ (tokenText t).toList, c.toNat < 0x80 := fun c hc =>
    (isDigit_of_mem_tokenText hc).isAscii
  have hguard : ¬((tokenText t).utf8ByteSize ≠ 16 ∨
      (tokenText t).toList.any (fun c => decide (0x80 ≤ c.toNat))) := by
    rw [utf8ByteSize_of_isAscii hascii, length_tokenText]
    simpa using hascii
  have hbytes := parseTokenBytes_hex (tokenText t) (Encoding.littleEndian 8 t.toNat)
  rw [← toList_tokenText] at hbytes
  rw [parseToken, if_neg hguard, hbytes]
  have hvalue : Reader.littleEndian (Encoding.littleEndian 8 t.toNat) = t.toNat := by
    rw [Encoding.littleEndian_littleEndian]
    exact Nat.mod_eq_of_lt t.toNat_lt
  exact congrArg Except.ok ((congrArg UInt64.ofNat hvalue).trans UInt64.ofNat_toNat)

theorem parseToken_fails (s : String) : FailsOnly (·.area = .malformed) (parseToken s) := by
  have hbytes (cs : List Char) : FailsOnly (·.area = .malformed) (parseTokenBytes s cs) := by
    fun_induction parseTokenBytes s cs with
    | case1 => exact .error rfl
    | case2 high low rest n hn ih => exact FailsOnly.stepwise.bind ih fun _ => .ok _
    | case3 => exact .ok _
  unfold parseToken
  split
  · exact .error rfl
  · exact FailsOnly.stepwise.bind (hbytes _) fun _ => .ok _

end StrongName

/-! ## Parts of display names -/

namespace Identity

variable {i j : Identity} {part value : String}

theorem refine_version : refine i ("Version=" ++ value) =
    (Version.parse value).map fun v => { i with version := v } := by
  rw [refine, Text.after?_append]
  rfl

theorem refine_culture : refine i ("Culture=" ++ value) =
    .ok (if value = "neutral" then i else { i with culture := some value }) := by
  have hversion : Text.after? "Version=" ("Culture=" ++ value) = none :=
    Text.after?_append_of_head rfl rfl (by decide)
  rw [refine, hversion, Text.after?_append]
  simp only [beq_iff_eq]

theorem refine_token : refine i ("PublicKeyToken=" ++ value) =
    if value = "null" ∨ value = "" then .ok i
    else (StrongName.parseToken value).map fun t => { i with strongName := some (.token t) } := by
  have hversion : Text.after? "Version=" ("PublicKeyToken=" ++ value) = none :=
    Text.after?_append_of_head rfl rfl (by decide)
  have hculture : Text.after? "Culture=" ("PublicKeyToken=" ++ value) = none :=
    Text.after?_append_of_head rfl rfl (by decide)
  rw [refine, hversion, hculture, Text.after?_append]
  simp only [Bool.or_eq_true, beq_iff_eq, String.isEmpty_iff]
  rfl

/-- A part that states nothing that is known changes nothing. -/
theorem refine_other (hversion : Text.after? "Version=" part = none)
    (hculture : Text.after? "Culture=" part = none)
    (htoken : Text.after? "PublicKeyToken=" part = none) : refine i part = .ok i := by
  rw [refine, hversion, hculture, htoken]

/-- What a part may state. -/
theorem part_cases (part : String) :
    (∃ value, part = "Version=" ++ value) ∨ (∃ value, part = "Culture=" ++ value) ∨
      (∃ value, part = "PublicKeyToken=" ++ value) ∨
      (Text.after? "Version=" part = none ∧ Text.after? "Culture=" part = none ∧
        Text.after? "PublicKeyToken=" part = none) := by
  rcases hversion : Text.after? "Version=" part with _ | value
  · rcases hculture : Text.after? "Culture=" part with _ | value
    · rcases htoken : Text.after? "PublicKeyToken=" part with _ | value
      · exact .inr (.inr (.inr ⟨rfl, rfl, rfl⟩))
      · exact .inr (.inr (.inl ⟨value, Text.after?_eq_some_iff.1 htoken⟩))
    · exact .inr (.inl ⟨value, Text.after?_eq_some_iff.1 hculture⟩)
  · exact .inl ⟨value, Text.after?_eq_some_iff.1 hversion⟩

/-- All that a part may do to an identity. -/
theorem refine_eq_ok (h : refine i part = .ok j) : j = i ∨
    (∃ v, j = { i with version := v }) ∨
    (∃ value, part = "Culture=" ++ value ∧ value ≠ "neutral" ∧ j = { i with culture := some value }) ∨
    ∃ t, j = { i with strongName := some (.token t) } := by
  obtain ⟨value, rfl⟩ | ⟨value, rfl⟩ | ⟨value, rfl⟩ | ⟨hversion, hculture, htoken⟩ := part_cases part
  · rw [refine_version] at h
    obtain ⟨v, -, rfl⟩ := map_eq_ok.1 h
    exact .inr (.inl ⟨v, rfl⟩)
  · rw [refine_culture] at h
    obtain rfl := Except.ok.inj h
    split
    · exact .inl rfl
    · exact .inr (.inr (.inl ⟨value, rfl, ‹_›, rfl⟩))
  · rw [refine_token] at h
    split at h
    · exact .inl (Except.ok.inj h).symm
    · obtain ⟨t, -, rfl⟩ := map_eq_ok.1 h
      exact .inr (.inr (.inr ⟨t, rfl⟩))
  · rw [refine_other hversion hculture htoken] at h
    exact .inl (Except.ok.inj h).symm

theorem refine_fails (i : Identity) (part : String) : FailsOnly (·.area = .malformed) (refine i part) := by
  obtain ⟨value, rfl⟩ | ⟨value, rfl⟩ | ⟨value, rfl⟩ | ⟨hversion, hculture, htoken⟩ := part_cases part
  · rw [refine_version]
    exact (Version.parse_fails value).map _
  · rw [refine_culture]
    exact .ok _
  · rw [refine_token]
    split
    · exact .ok _
    · exact (StrongName.parseToken_fails value).map _
  · rw [refine_other hversion hculture htoken]
    exact .ok _

/-- The parts of a display name, without blanks around them; the first one is the name. -/
def parts (s : String) : List String := (Text.split (· == ',') s).map Text.trim

theorem exists_parts (s : String) : ∃ name rest, parts s = name :: rest :=
  List.exists_cons_of_ne_nil fun h => Text.split_ne_nil _ _ (List.map_eq_nil_iff.1 h)

theorem parse_of_parts {s name : String} {rest : List String} (h : parts s = name :: rest) : parse s =
    if name = "" then .error (.malformed .emptyName)
    else rest.foldlM refine (ofName name .zero) := by
  unfold parts at h
  rw [parse, h]
  simp only [String.isEmpty_iff]

theorem parse_fails (s : String) : FailsOnly (·.area = .malformed) (parse s) := by
  unfold parse
  split
  · exact .error rfl
  · split
    · exact .error rfl
    · exact FailsOnly.stepwise.foldlM refine_fails _ _

end Identity

/-! ## Whole display names -/

namespace Version

/-- The characters of a version are digits and points. -/
theorem mem_text {v : Version} {c : Char} (h : c ∈ v.text.toList) : Numeral.IsDigit 10 c ∨ c = '.' := by
  have htext : v.text = toString v.major ++ "." ++ toString v.minor ++ "." ++ toString v.build ++ "." ++
      toString v.revision := rfl
  have hpoint (h : c ∈ ".".toList) : c = '.' := List.mem_singleton.1 h
  simp only [htext, String.toList_append, List.mem_append] at h
  rcases h with (((((h | h) | h) | h) | h) | h) | h
  · exact .inl ((spells_toString _).digits c h)
  · exact .inr (hpoint h)
  · exact .inl ((spells_toString _).digits c h)
  · exact .inr (hpoint h)
  · exact .inl ((spells_toString _).digits c h)
  · exact .inr (hpoint h)
  · exact .inl ((spells_toString _).digits c h)

end Version

namespace Identity

variable {i j : Identity} {part s : String}

/-! ## Cutting a display name -/

/-- The display name of the identity can be cut at its commas. The culture must not be the word that stands
for none. -/
structure Displayable (i : Identity) : Prop where
  name_ne : i.name ≠ ""
  name_trim : Text.trim i.name = i.name
  name_comma : ',' ∉ i.name.toList
  culture_ne : i.culture ≠ some "neutral"
  culture_comma : ∀ culture ∈ i.culture, ',' ∉ culture.toList
  culture_end : ∀ culture ∈ i.culture, ∀ c ∈ culture.toList.getLast?, ¬Text.isBlank c

/-- The culture as display names state it. -/
def cultureText (i : Identity) : String := i.culture.getD "neutral"

/-- The token as display names state it. -/
def tokenText (i : Identity) : String := (i.keyToken?.map StrongName.tokenText).getD "null"

theorem Displayable.cultureText_comma (h : i.Displayable) : ',' ∉ i.cultureText.toList := by
  cases hculture : i.culture with
  | none =>
    rw [cultureText, hculture]
    decide
  | some culture =>
    rw [cultureText, hculture]
    exact h.culture_comma culture hculture

theorem Displayable.cultureText_end (h : i.Displayable) :
    ∀ c ∈ i.cultureText.toList.getLast?, ¬Text.isBlank c := by
  cases hculture : i.culture with
  | none =>
    intro c hc
    rw [cultureText, hculture] at hc
    obtain rfl : 'l' = c := Option.some.inj hc
    decide
  | some culture =>
    rw [cultureText, hculture]
    exact h.culture_end culture hculture

/-- The characters of a token, or of the word that stands for none, are digits and letters. -/
theorem mem_tokenText {c : Char} (h : c ∈ i.tokenText.toList) : Numeral.IsDigit 36 c := by
  cases htoken : i.keyToken? with
  | none =>
    rw [tokenText, htoken, Option.map_none, Option.getD_none] at h
    have hall : "null".toList.all fun c => decide (Numeral.IsDigit 36 c) := by decide
    exact of_decide_eq_true (List.all_eq_true.1 hall c h)
  | some t =>
    rw [tokenText, htoken, Option.map_some, Option.getD_some] at h
    exact (StrongName.isDigit_of_mem_tokenText h).mono (by decide)

theorem comma_append {lead value : String} (hlead : ',' ∉ lead.toList) (hvalue : ',' ∉ value.toList) :
    ',' ∉ (lead ++ value).toList := by
  rw [String.toList_append, List.mem_append, not_or]
  exact ⟨hlead, hvalue⟩

/-- A text without commas is the first part of what is put together with a comma behind it. -/
theorem split_comma {rest : String} (h : ',' ∉ part.toList) :
    Text.split (· == ',') (part ++ ("," ++ rest)) = part :: Text.split (· == ',') rest :=
  Text.split_append (c := ',') (fun _ hc hcomma => h (eq_of_beq hcomma ▸ hc)) rfl

/-- A value that does not end in a blank stands behind its lead once the blank before it is trimmed off. -/
theorem trim_stated {lead value : String} (hne : lead ≠ "") (hlead : ¬lead.toList.any Text.isBlank)
    (hvalue : ∀ c ∈ value.toList.getLast?, ¬Text.isBlank c) :
    Text.trim (" " ++ (lead ++ value)) = lead ++ value :=
  (Text.trim_singleton_append (c := ' ') (by decide)).trans (Text.trim_append_eq_self hne hlead hvalue)

/-- The parts of a display name are those it was put together from. -/
theorem Displayable.parts_displayName (h : i.Displayable) : parts i.displayName =
    [i.name, "Version=" ++ i.version.text, "Culture=" ++ i.cultureText,
      "PublicKeyToken=" ++ i.tokenText] := by
  have htext : i.displayName = i.name ++ ("," ++ (" " ++ ("Version=" ++ i.version.text) ++
      ("," ++ (" " ++ ("Culture=" ++ i.cultureText) ++
        ("," ++ (" " ++ ("PublicKeyToken=" ++ i.tokenText))))))) := by
    rw [← String.toList_inj]
    simp only [String.toList_append, displayName, toString, List.append_assoc]
    rfl
  have hversion : ',' ∉ i.version.text.toList := by
    intro hc
    rcases Version.mem_text hc with hc | hc
    · exact absurd hc (by decide)
    · exact absurd hc (by decide)
  have htoken : ',' ∉ i.tokenText.toList := fun hc => absurd (mem_tokenText hc) (by decide)
  have hsplit : Text.split (· == ',') i.displayName = [i.name, " " ++ ("Version=" ++ i.version.text),
      " " ++ ("Culture=" ++ i.cultureText), " " ++ ("PublicKeyToken=" ++ i.tokenText)] := by
    have hstated {lead value : String} (hlead : ',' ∉ lead.toList) (hvalue : ',' ∉ value.toList) :
        ',' ∉ (" " ++ (lead ++ value)).toList := comma_append (by decide) (comma_append hlead hvalue)
    have hlast (c : Char) (hc : c ∈ (" " ++ ("PublicKeyToken=" ++ i.tokenText)).toList) : ¬(c == ',') :=
      fun hcomma => hstated (by decide) htoken (eq_of_beq hcomma ▸ hc)
    rw [htext, split_comma h.name_comma, split_comma (hstated (by decide) hversion),
      split_comma (hstated (by decide) h.cultureText_comma),
      Text.split_of_forall hlast]
  have hversionEnd : ∀ c ∈ i.version.text.toList.getLast?, ¬Text.isBlank c := by
    intro c hc
    rcases Version.mem_text (List.mem_of_mem_getLast? hc) with hc | rfl
    · exact hc.not_isBlank
    · decide
  have htokenEnd : ∀ c ∈ i.tokenText.toList.getLast?, ¬Text.isBlank c := fun c hc =>
    (mem_tokenText (List.mem_of_mem_getLast? hc)).not_isBlank
  rw [parts, hsplit, List.map_cons, List.map_cons, List.map_cons, List.map_cons, List.map_nil, h.name_trim,
    trim_stated (by decide) (by decide) hversionEnd, trim_stated (by decide) (by decide) h.cultureText_end,
    trim_stated (by decide) (by decide) htokenEnd]

/-! ## Reading it -/

/-- The word that stands for no culture says nothing, and nothing else is stated so. -/
theorem refine_cultureText (h : i.Displayable) (hj : j.culture = none) :
    refine j ("Culture=" ++ i.cultureText) = .ok { j with culture := i.culture } := by
  rw [refine_culture, cultureText]
  cases hculture : i.culture with
  | none => rw [Option.getD_none, if_pos rfl, ← hj]
  | some culture =>
    have hne : culture ≠ "neutral" := fun heq => h.culture_ne (heq ▸ hculture)
    rw [Option.getD_some, if_neg hne]

/-- A token is not the word that stands for none, nor is it empty. -/
theorem refine_tokenText (hj : j.strongName = none) : refine j ("PublicKeyToken=" ++ i.tokenText) =
    .ok { j with strongName := i.keyToken?.map .token } := by
  rw [refine_token, tokenText]
  cases i.keyToken? with
  | none =>
    rw [Option.map_none, Option.getD_none, if_pos (.inl rfl), Option.map_none, ← hj]
  | some t =>
    have hlength := StrongName.length_tokenText t
    have hstated : ¬(StrongName.tokenText t = "null" ∨ StrongName.tokenText t = "") := by
      rintro (h | h) <;> rw [h] at hlength <;> exact absurd hlength (by decide)
    rw [Option.map_some, Option.getD_some, if_neg hstated, StrongName.parseToken_tokenText]
    rfl

/-- A display name that can be cut is read as its identity, with the token for the key. -/
theorem Displayable.parse_eq (h : i.Displayable) :
    parse i.displayName = .ok { i with strongName := i.keyToken?.map .token } := by
  rw [parse_of_parts h.parts_displayName, if_neg h.name_ne, List.foldlM_cons, refine_version,
    Version.parse_text]
  change refine { ofName i.name .zero with version := i.version } _ >>= _ = _
  rw [refine_cultureText h rfl]
  change refine { ofName i.name i.version with culture := i.culture } _ >>= _ = _
  rw [refine_tokenText rfl]
  rfl

/-! ## Identities that were read -/

/-- The display name can be cut, and the strong name is not more than a token. -/
structure Restorable (i : Identity) : Prop extends Displayable i where
  strongName_eq : i.keyToken?.map .token = i.strongName

theorem restorable_ofName {name : String} (hne : name ≠ "") (htrim : Text.trim name = name)
    (hcomma : ',' ∉ name.toList) : (ofName name .zero).Restorable :=
  ⟨⟨hne, htrim, hcomma, nofun, nofun, nofun⟩, rfl⟩

/-- A part without commas, and without blanks around it, leaves an identity whose display name can be cut. -/
theorem Restorable.refine (hi : i.Restorable) (htrim : Text.trim part = part) (hcomma : ',' ∉ part.toList)
    (h : refine i part = .ok j) : j.Restorable := by
  obtain rfl | ⟨v, rfl⟩ | ⟨value, rfl, hne, rfl⟩ | ⟨t, rfl⟩ := refine_eq_ok h
  · exact hi
  · exact ⟨⟨hi.name_ne, hi.name_trim, hi.name_comma, hi.culture_ne, hi.culture_comma, hi.culture_end⟩,
      hi.strongName_eq⟩
  · refine ⟨⟨hi.name_ne, hi.name_trim, hi.name_comma, fun h => hne (Option.some.inj h), ?_, ?_⟩,
      hi.strongName_eq⟩
    · intro culture hculture hc
      obtain rfl := Option.mem_some.1 hculture
      exact hcomma (by rw [String.toList_append]; exact List.mem_append_right _ hc)
    · intro culture hculture
      obtain rfl := Option.mem_some.1 hculture
      exact Text.getLast?_of_trim_append htrim
  · exact ⟨⟨hi.name_ne, hi.name_trim, hi.name_comma, hi.culture_ne, hi.culture_comma, hi.culture_end⟩, rfl⟩

/-- The parts of a text that was cut at its commas have none, nor blanks around them. -/
theorem of_mem_parts (h : part ∈ parts s) : Text.trim part = part ∧ ',' ∉ part.toList := by
  obtain ⟨run, hrun, rfl⟩ := List.mem_map.1 h
  exact ⟨Text.trim_trim run, fun hc => Text.not_separates_of_mem_split hrun (Text.mem_of_mem_trim hc) rfl⟩

theorem restorable_of_parse (h : parse s = .ok i) : i.Restorable := by
  obtain ⟨name, rest, hparts⟩ := exists_parts s
  have hmem (part : String) (hpart : part ∈ name :: rest) := of_mem_parts (hparts ▸ hpart)
  obtain ⟨htrim, hcomma⟩ := hmem name List.mem_cons_self
  rw [parse_of_parts hparts] at h
  split at h
  · exact nomatch h
  · refine of_foldlM_eq_ok (restorable_ofName ‹_› htrim hcomma) ?_ h
    intro i part hpart j hi hj
    obtain ⟨htrim, hcomma⟩ := hmem part (List.mem_cons_of_mem _ hpart)
    exact hi.refine htrim hcomma hj

/-- The display name of what was read from any text is read as the same. So is the display name of every
identity that can be cut, but for the public key, of which the token is read. -/
theorem parse_displayName :
    (∀ s i, parse s = .ok i → parse i.displayName = .ok i) ∧
      ∀ i : Identity, i.Displayable →
        parse i.displayName = .ok { i with strongName := i.keyToken?.map .token } := by
  refine ⟨fun s i h => ?_, fun i h => h.parse_eq⟩
  have hi := restorable_of_parse h
  rw [hi.parse_eq, hi.strongName_eq]

/-- A module for a culture that is signed with a public key. -/
def satellite : Identity :=
  ⟨"Library.resources", ⟨1, 2, 0, 65535⟩, some "de-DE", some (.publicKey [1, 2, 3, 4, 5, 6, 7, 8])⟩

/-- What is read from a text with other blanks, fewer numbers and capital digits. -/
def scanned : Identity := ⟨"Library", ⟨1, 2, 0, 0⟩, none, some (.token 0x89E03419565C7AB7)⟩

theorem parse_displayName_satellite :
    (parse " Library ,Version=1.02 , PublicKeyToken=B77A5C561934E089" = .ok scanned ∧
      parse scanned.displayName = .ok scanned) ∧
    satellite.Displayable ∧ parse satellite.displayName =
      .ok { satellite with strongName := some (.token (StrongName.keyToken [1, 2, 3, 4, 5, 6, 7, 8])) } := by
  have hscanned : parse " Library ,Version=1.02 , PublicKeyToken=B77A5C561934E089" = .ok scanned := rfl
  have hsatellite : satellite.Displayable := by
    refine ⟨by decide, rfl, by decide, by decide, ?_, ?_⟩
    · rintro _ ⟨⟩
      decide
    · rintro _ ⟨⟩ _ ⟨⟩
      decide
  exact ⟨⟨hscanned, parse_displayName.1 _ _ hscanned⟩, hsatellite, parse_displayName.2 _ hsatellite⟩

end Identity

end ModuleLinker
