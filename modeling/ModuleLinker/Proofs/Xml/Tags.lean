import Mathlib.Data.List.Nodup
import Mathlib.Data.List.TakeDrop
import ModuleLinker.Proofs.Text.Cutting
import ModuleLinker.Text.CharSet
import ModuleLinker.Xml.Markup
import ModuleLinker.Xml.Writer

namespace ModuleLinker.Xml

/-! # Written tags

An escaped text has no character that marks up a document, and what it stands for is the text. So a tag
that is written ends at its own bracket, whatever the values of its attributes are, and is read as the name
and the attributes that it was written with.
-/

/-! ## Names -/

/-- The characters that names of elements and attributes start with. -/
def nameStarts : CharSet :=
  ⟨[(0x3A, 0x3A), (0x41, 0x5A), (0x5F, 0x5F), (0x61, 0x7A), (0xC0, 0xD6), (0xD8, 0xF6), (0xF8, 0x2FF),
    (0x370, 0x37D), (0x37F, 0x1FFF), (0x200C, 0x200D), (0x2070, 0x218F), (0x2C00, 0x2FEF),
    (0x3001, 0xD7FF), (0xF900, 0xFDCF), (0xFDF0, 0xFFFD), (0x10000, 0xEFFFF)]⟩

/-- The characters of names: those that they start with, points, hyphens, digits and combining marks. -/
def nameChars : CharSet :=
  ⟨[(0x2D, 0x2E), (0x30, 0x3A), (0x41, 0x5A), (0x5F, 0x5F), (0x61, 0x7A), (0xB7, 0xB7), (0xC0, 0xD6),
    (0xD8, 0xF6), (0xF8, 0x37D), (0x37F, 0x1FFF), (0x200C, 0x200D), (0x203F, 0x2040), (0x2070, 0x218F),
    (0x2C00, 0x2FEF), (0x3001, 0xD7FF), (0xF900, 0xFDCF), (0xFDF0, 0xFFFD), (0x10000, 0xEFFFF)]⟩

/-- Whether a text is a name of an element or an attribute. -/
def isName (s : String) : Bool := s.toList.head?.any nameStarts.has && s.toList.all nameChars.has

section

variable {s : String} {c d : Char}

theorem exists_of_isName (h : isName s) : ∃ c cs, s.toList = c :: cs := by
  rw [isName, Bool.and_eq_true] at h
  cases hs : s.toList with
  | nil =>
    rw [hs] at h
    exact nomatch h.1
  | cons c cs => exact ⟨c, cs, rfl⟩

/-- A character that no name has is none of the characters of a name. -/
theorem ne_of_mem_name (h : isName s) (hc : c ∈ s.toList) (hd : nameChars.has d = false) : c ≠ d := by
  rw [isName, Bool.and_eq_true, List.all_eq_true] at h
  rintro rfl
  exact Bool.false_ne_true (hd.symm.trans (h.2 c hc))

theorem not_isSpace_of_mem_name (h : isName s) (hc : c ∈ s.toList) : ¬Markup.isSpace c := by
  have hne (d : Char) (hd : nameChars.has d = false) : c ≠ d := ne_of_mem_name h hc hd
  simp only [Markup.isSpace, Bool.or_eq_true, beq_iff_eq, not_or]
  exact ⟨⟨⟨hne _ (by decide), hne _ (by decide)⟩, hne _ (by decide)⟩, hne _ (by decide)⟩

theorem not_isQuote_of_mem_name (h : isName s) (hc : c ∈ s.toList) : ¬Markup.isQuote c := by
  have hne (d : Char) (hd : nameChars.has d = false) : c ≠ d := ne_of_mem_name h hc hd
  simp only [Markup.isQuote, Bool.or_eq_true, beq_iff_eq, not_or]
  exact ⟨hne _ (by decide), hne _ (by decide)⟩

end

/-! ## Escaped texts -/

section

variable {c : Char} {cs : List Char}

/-- A character is written as it is, unless it has an entity. -/
theorem escapeChar_cases (c : Char) : escapeChar c = [c] ∧ (∀ e ∈ entities, e.1 ≠ c) ∨
    ∃ e ∈ entities, e.1 = c ∧ escapeChar c = '&' :: e.2.toList ++ [';'] := by
  rw [escapeChar]
  cases hlookup : entities.lookup c with
  | none =>
    refine .inl ⟨rfl, fun e he heq => ?_⟩
    exact absurd (List.lookup_eq_none_iff.1 hlookup e he) (by simp [heq])
  | some name =>
    right
    obtain ⟨before, after, hentities, -⟩ := List.lookup_eq_some_iff.1 hlookup
    exact ⟨(c, name), by rw [hentities]; simp, rfl, rfl⟩

/-- The characters with an entity, other than the one that entities start with, are not written. -/
theorem ne_of_mem_escape {d : Char} (hd : d ∈ entities.map Prod.fst) (hamp : d ≠ '&')
    (hc : c ∈ escape cs) : c ≠ d := by
  rw [escape, List.mem_flatMap] at hc
  obtain ⟨a, -, hc⟩ := hc
  have hplain : ∀ e ∈ entities, ∀ e' ∈ entities, e'.1 ≠ '&' → e'.1 ∉ '&' :: e.2.toList ++ [';'] := by
    decide
  obtain ⟨e', he', rfl⟩ := List.mem_map.1 hd
  rintro rfl
  obtain ⟨heq, hnone⟩ | ⟨e, he, -, heq⟩ := escapeChar_cases a
  · rw [heq, List.mem_singleton] at hc
    exact hnone e' he' hc
  · rw [heq] at hc
    exact hplain e he e' he' hamp hc

/-- The reference that is written for a character stands for it. -/
theorem unescapeFrom_escapeChar (c : Char) (rest : List Char) :
    unescapeFrom none (escapeChar c ++ rest) = (unescapeFrom none rest).map (c :: ·) := by
  obtain ⟨heq, hnone⟩ | ⟨e, he, rfl, heq⟩ := escapeChar_cases c
  · have hamp : c ≠ '&' := fun hc => hnone ('&', "amp") (by decide) hc.symm
    rw [heq, List.singleton_append, unescapeFrom, if_neg hamp]
  · rw [heq]
    have hreads (e : Char × String) (he : e ∈ entities) (rest : List Char) :
        unescapeFrom none ('&' :: e.2.toList ++ [';'] ++ rest) =
          (unescapeFrom none rest).bind fun value => some (e.1 :: value) := by
      simp only [entities, List.mem_cons, List.not_mem_nil, or_false] at he
      obtain rfl | rfl | rfl | rfl | rfl := he <;> rfl
    rw [hreads e he]
    cases unescapeFrom none rest <;> rfl

/-- An escaped text stands for the text. -/
theorem unescape?_escape (cs : List Char) : unescape? (escape cs) = some cs := by
  rw [unescape?, escape]
  induction cs with
  | nil => rfl
  | cons c cs ih => rw [List.flatMap_cons, unescapeFrom_escapeChar, ih, Option.map_some]

/-- White space is written as it is, and nothing else is written with white space. -/
theorem head?_escapeChar (c : Char) :
    ∃ d, (escapeChar c).head? = some d ∧ Markup.isSpace d = Markup.isSpace c := by
  obtain ⟨heq, -⟩ | ⟨e, he, rfl, heq⟩ := escapeChar_cases c
  · exact ⟨c, by rw [heq]; rfl, rfl⟩
  · have hnone : ∀ e ∈ entities, Markup.isSpace e.1 = Markup.isSpace '&' := by decide
    exact ⟨'&', by rw [heq]; rfl, (hnone e he).symm⟩

theorem getLast?_escapeChar (c : Char) :
    ∃ d, (escapeChar c).getLast? = some d ∧ Markup.isSpace d = Markup.isSpace c := by
  obtain ⟨heq, -⟩ | ⟨e, he, rfl, heq⟩ := escapeChar_cases c
  · exact ⟨c, by rw [heq]; rfl, rfl⟩
  · have hnone : ∀ e ∈ entities, Markup.isSpace e.1 = Markup.isSpace ';' := by decide
    exact ⟨';', by rw [heq, List.getLast?_append]; rfl, (hnone e he).symm⟩

theorem escape_cons (c : Char) (cs : List Char) : escape (c :: cs) = escapeChar c ++ escape cs :=
  List.flatMap_cons

/-- An escaped text has white space at its front exactly where the text has. -/
theorem head?_escape (cs : List Char) : (escape cs).head?.map Markup.isSpace = cs.head?.map Markup.isSpace := by
  cases cs with
  | nil => rfl
  | cons c cs =>
    obtain ⟨d, hd, hspace⟩ := head?_escapeChar c
    rw [escape_cons, List.head?_append, hd, Option.some_or, List.head?_cons, Option.map_some, hspace,
      Option.map_some]

theorem getLast?_escape (cs : List Char) :
    (escape cs).getLast?.map Markup.isSpace = cs.getLast?.map Markup.isSpace := by
  rcases cs.eq_nil_or_concat' with rfl | ⟨cs, c, rfl⟩
  · rfl
  · obtain ⟨d, hd, hspace⟩ := getLast?_escapeChar c
    rw [escape, List.flatMap_append, List.flatMap_singleton, List.getLast?_append, hd, Option.some_or,
      List.getLast?_concat, Option.map_some, hspace, Option.map_some]

end

/-- A run ends before the first element that does not belong to it. -/
theorem span_append_cons {p : α → Bool} {front rest : List α} {x : α} (hfront : ∀ y ∈ front, p y) (hx : ¬p x) :
    (front ++ x :: rest).span p = (front, x :: rest) := by
  rw [List.span_eq_takeWhile_dropWhile, List.takeWhile_append_of_pos hfront,
    List.dropWhile_append_of_pos hfront, List.takeWhile_cons_of_neg hx, List.dropWhile_cons_of_neg hx,
    List.append_nil]

/-! ## Where a tag ends -/

namespace Markup

/-- Whether no tag ends among these characters, and no quotation mark is left open behind them. -/
def Passes (cs : List Char) : Prop :=
  ∀ rest, cutTag? none (cs ++ rest) = (cutTag? none rest).map fun p => (cs ++ p.1, p.2)

namespace Passes

variable {cs cs' : List Char}

theorem nil : Passes [] := fun _ => Option.map_id'.symm

theorem append (h : Passes cs) (h' : Passes cs') : Passes (cs ++ cs') := by
  intro rest
  rw [List.append_assoc, h, h', Option.map_map]
  refine congrFun (congrArg Option.map (funext fun p => ?_)) _
  exact congrArg (·, p.2) (List.append_assoc ..).symm

theorem flatMap {f : α → List Char} {xs : List α} (h : ∀ x ∈ xs, Passes (f x)) : Passes (xs.flatMap f) := by
  induction xs with
  | nil => exact nil
  | cons x xs ih =>
    obtain ⟨hx, hxs⟩ := List.forall_mem_cons.1 h
    exact hx.append (ih hxs)

theorem cons {c : Char} (hend : c ≠ '>') (hquote : ¬isQuote c) (h : Passes cs) : Passes (c :: cs) := by
  intro rest
  rw [List.cons_append, cutTag?, if_neg hend, if_neg hquote, h, Option.map_map]
  rfl

theorem of_plain (h : ∀ c ∈ cs, c ≠ '>' ∧ ¬isQuote c) : Passes cs := by
  induction cs with
  | nil => exact nil
  | cons c cs ih =>
    obtain ⟨⟨hend, hquote⟩, hcs⟩ := List.forall_mem_cons.1 h
    exact (ih hcs).cons hend hquote

/-- Between quotation marks no tag ends. -/
theorem quoted (h : ∀ c ∈ cs, c ≠ '"') : Passes ('"' :: cs ++ ['"']) := by
  intro rest
  have hopen : cutTag? (some '"') (cs ++ '"' :: rest) =
      (cutTag? none rest).map fun p => (cs ++ '"' :: p.1, p.2) := by
    induction cs with
    | nil => rw [List.nil_append, cutTag?, if_pos rfl]; rfl
    | cons c cs ih =>
      obtain ⟨hc, hcs⟩ := List.forall_mem_cons.1 h
      rw [List.cons_append, cutTag?, if_neg hc, ih hcs, Option.map_map]
      rfl
  rw [List.append_assoc, List.singleton_append, List.cons_append, cutTag?, if_neg (by decide),
    if_pos (by decide), hopen, Option.map_map]
  simp [Function.comp_def]

/-- The tag ends at the first bracket behind. -/
theorem cutTag?_eq (h : Passes cs) (rest : List Char) : cutTag? none (cs ++ '>' :: rest) = some (cs, rest) := by
  rw [h, cutTag?, if_pos rfl, Option.map_some, List.append_nil]

end Passes

end Markup

/-! ## Tags -/

/-- Whether a tag has names and no key twice. -/
structure SoundTag (name : String) (attributes : List Pair) : Prop where
  name : isName name
  keys : ∀ pair ∈ attributes, isName pair.1
  nodup : (attributes.map Prod.fst).Nodup

namespace SoundTag

open Writer Markup

variable {name : String} {attributes : List Pair}

instance (name : String) (attributes : List Pair) : Decidable (SoundTag name attributes) :=
  decidable_of_iff (isName name ∧ (∀ pair ∈ attributes, isName pair.1) ∧ (attributes.map Prod.fst).Nodup)
    ⟨fun ⟨a, b, c⟩ => ⟨a, b, c⟩, fun ⟨a, b, c⟩ => ⟨a, b, c⟩⟩

theorem passes_name {s : String} (h : isName s) : Passes s.toList :=
  .of_plain fun _ hc => ⟨ne_of_mem_name h hc (by decide), not_isQuote_of_mem_name h hc⟩

theorem passes_pair {p : Pair} (h : isName p.1) : Passes (pair p) := by
  have hvalue : Passes ('"' :: escape p.2.toList ++ ['"']) :=
    .quoted fun c hc => ne_of_mem_escape (by decide) (by decide) hc
  have heq : pair p = ' ' :: (p.1.toList ++ '=' :: ('"' :: escape p.2.toList ++ ['"'])) := by
    simp [pair]
  rw [heq]
  exact ((passes_name h).append (hvalue.cons (by decide) (by decide))).cons (by decide) (by decide)

theorem passes_head (h : SoundTag name attributes) : Passes (head name attributes) :=
  (passes_name h.name).append (.flatMap fun p hp => passes_pair (h.keys p hp))

/-- Attributes are read one after another. -/
theorem attributesWithin?_pairs (hkeys : ∀ pair ∈ attributes, isName pair.1) {n : Nat}
    (hn : attributes.length ≤ n) : attributesWithin? n (attributes.flatMap pair) =
      some (attributes.map fun p => (p.1.toList, p.2.toList)) := by
  induction attributes generalizing n with
  | nil => cases n <;> rfl
  | cons p attributes ih =>
    obtain ⟨hkey, hkeys⟩ := List.forall_mem_cons.1 hkeys
    obtain ⟨c, cs, hcs⟩ := exists_of_isName hkey
    rw [List.length_cons] at hn
    obtain ⟨n, rfl⟩ := Nat.exists_eq_add_one_of_ne_zero (Nat.ne_zero_of_lt hn)
    have hrest := ih hkeys (Nat.le_of_succ_le_succ hn)
    let behind : List Char := '"' :: attributes.flatMap pair
    have hwritten : (p :: attributes).flatMap pair =
        ' ' :: c :: (cs ++ '=' :: '"' :: (escape p.2.toList ++ behind)) := by
      simp [pair, hcs, behind]
    have hspace (d : Char) (hd : d ∈ c :: cs) : ¬isSpace d := not_isSpace_of_mem_name hkey (hcs ▸ hd)
    have hequal (d : Char) (hd : d ∈ c :: cs) : d ≠ '=' := ne_of_mem_name hkey (hcs ▸ hd) (by decide)
    have hblank (rest : List Char) : (' ' :: c :: rest).dropWhile isSpace = c :: rest := by
      rw [List.dropWhile_cons_of_pos (by decide),
        List.dropWhile_cons_of_neg (hspace c List.mem_cons_self)]
    have hinside (d : Char) (hd : d ∈ cs) : (d != '=' && !isSpace d) = true := by
      have hmem : d ∈ c :: cs := List.mem_cons_of_mem c hd
      simp [hequal d hmem, hspace d hmem]
    have hkeyspan : (cs ++ '=' :: '"' :: (escape p.2.toList ++ behind)).span
        (fun x => x != '=' && !isSpace x) = (cs, '=' :: '"' :: (escape p.2.toList ++ behind)) :=
      span_append_cons hinside (by decide)
    have hvalue (d : Char) (hd : d ∈ escape p.2.toList) : (d != '"') = true := by
      simpa using ne_of_mem_escape (by decide) (by decide) hd
    have hvaluespan : (escape p.2.toList ++ behind).span (· != '"') = (escape p.2.toList, behind) :=
      span_append_cons hvalue (by decide)
    have hmark (d : Char) (rest : List Char) (hd : ¬isSpace d) :
        (d :: rest).dropWhile isSpace = d :: rest := List.dropWhile_cons_of_neg hd
    rw [hwritten, attributesWithin?, hblank]
    simp only [hkeyspan, hmark '=' _ (by decide), hmark '"' _ (by decide), hvaluespan, behind,
      unescape?_escape, hrest]
    rw [List.map_cons, hcs]
    rfl

theorem attributes?_pairs (h : SoundTag name attributes) :
    attributes? (attributes.flatMap pair) = some attributes := by
  have hlength : attributes.length ≤ (attributes.flatMap pair).length := by
    clear h
    induction attributes with
    | nil => exact Nat.zero_le _
    | cons p attributes ih =>
      simp only [List.flatMap_cons, List.length_append, List.length_cons, pair]
      omega
  have hnodup : ((attributes.map fun p => (p.1.toList, p.2.toList)).map Prod.fst).Nodup := by
    rw [List.map_map]
    have hkeys := List.Nodup.map (fun _ _ => String.toList_inj.1) h.nodup
    rwa [List.map_map] at hkeys
  rw [attributes?, attributesWithin?_pairs h.keys hlength]
  show (if _ then _ else _) = _
  rw [if_pos hnodup, List.map_map]
  simp [Function.comp_def]

/-- What is between the brackets of a tag is its name, up to the first white space, and its attributes. -/
theorem name_head (h : SoundTag name attributes) :
    (head name attributes).takeWhile (fun c => !isSpace c) = name.toList ∧
      (head name attributes).dropWhile (fun c => !isSpace c) = attributes.flatMap pair := by
  have hname (c : Char) (hc : c ∈ name.toList) : (!isSpace c) = true := by
    simpa using not_isSpace_of_mem_name h.name hc
  rw [head, List.takeWhile_append_of_pos hname, List.dropWhile_append_of_pos hname]
  cases attributes with
  | nil => exact ⟨List.append_nil _, rfl⟩
  | cons p attributes =>
    rw [List.flatMap_cons]
    exact ⟨List.append_nil _, rfl⟩

/-- No tag ends with a slash by itself. -/
theorem isSuffixOf?_head (h : SoundTag name attributes) : ['/'].isSuffixOf? (head name attributes) = none := by
  have hlast : (head name attributes).getLast? ≠ some '/' := by
    rw [head]
    rcases attributes.eq_nil_or_concat' with rfl | ⟨attributes, p, rfl⟩
    · rw [List.flatMap_nil, List.append_nil]
      intro hslash
      exact ne_of_mem_name h.name (List.mem_of_getLast? hslash) (by decide) rfl
    · rw [List.flatMap_append, List.flatMap_singleton, pair, ← List.append_assoc, ← List.append_assoc,
        List.getLast?_concat]
      decide
  cases hsuffix : ['/'].isSuffixOf? (head name attributes) with
  | none => rfl
  | some front =>
    rw [List.isSuffixOf?_eq_some_iff_append_eq] at hsuffix
    exact absurd (by rw [← hsuffix, List.getLast?_concat]) hlast

theorem ofTag_head (h : SoundTag name attributes) :
    ofTag (head name attributes) = .opening name attributes := by
  obtain ⟨htake, hdrop⟩ := h.name_head
  simp only [ofTag, isSuffixOf?_head h, hdrop, htake, h.attributes?_pairs, String.ofList_toList]

theorem ofTag_slash (h : SoundTag name attributes) :
    ofTag (head name attributes ++ ['/']) = .empty name attributes := by
  obtain ⟨htake, hdrop⟩ := h.name_head
  have hsuffix : ['/'].isSuffixOf? (head name attributes ++ ['/']) = some (head name attributes) := by
    rw [List.isSuffixOf?_eq_some_iff_append_eq]
  simp only [ofTag, hsuffix, hdrop, htake, h.attributes?_pairs, String.ofList_toList]

theorem ofEndTag_name (h : isName name) : ofEndTag name.toList = .closing name := by
  obtain ⟨c, cs, hcs⟩ := exists_of_isName h
  have hspace (d : Char) (hd : d ∈ name.toList) : ¬isSpace d := not_isSpace_of_mem_name h hd
  have hall : ¬name.toList.all isSpace := by
    rw [hcs, List.all_cons, Bool.and_eq_true]
    exact fun hc => hspace c (by rw [hcs]; exact List.mem_cons_self) hc.1
  have hback : (name.toList.reverse.dropWhile isSpace).reverse = name.toList := by
    rw [List.dropWhile_eq_self_iff.2, List.reverse_reverse]
    intro hlength
    exact hspace _ (List.mem_reverse.1 (List.getElem_mem hlength))
  rw [ofEndTag, if_neg hall, hback, String.ofList_toList]

/-! ## Markup -/

/-- A name starts no markup other than a tag. -/
theorem ofMarkup_of_name {rest content after : List Char} (h : isName name)
    (hcut : cutTag? none (name.toList ++ rest) = some (content, after)) :
    ofMarkup (name.toList ++ rest) = (ofTag content, after) := by
  obtain ⟨c, cs, hcs⟩ := exists_of_isName h
  have hne (d : Char) (hd : nameChars.has d = false) : c ≠ d :=
    ne_of_mem_name h (by rw [hcs]; exact List.mem_cons_self) hd
  have hbang : c ≠ '!' := hne _ (by decide)
  have hquestion : c ≠ '?' := hne _ (by decide)
  have hslash : c ≠ '/' := hne _ (by decide)
  rw [hcs, List.cons_append] at hcut ⊢
  unfold ofMarkup
  split <;> simp_all

theorem ofMarkup_opening (h : SoundTag name attributes) (after : List Char) :
    ofMarkup (head name attributes ++ '>' :: after) = (.opening name attributes, after) := by
  have hcut := h.passes_head.cutTag?_eq after
  rw [← h.ofTag_head]
  rw [head, List.append_assoc] at hcut ⊢
  exact ofMarkup_of_name h.name hcut

theorem ofMarkup_empty (h : SoundTag name attributes) (after : List Char) :
    ofMarkup (head name attributes ++ '/' :: '>' :: after) = (.empty name attributes, after) := by
  have hslash : Passes (head name attributes ++ ['/']) :=
    h.passes_head.append (.cons (by decide) (by decide) .nil)
  have hcut := hslash.cutTag?_eq after
  rw [← h.ofTag_slash]
  simp only [head, List.append_assoc, List.singleton_append] at hcut ⊢
  exact ofMarkup_of_name h.name hcut

theorem ofMarkup_closing (h : isName name) (after : List Char) :
    ofMarkup ('/' :: (name.toList ++ '>' :: after)) = (.closing name, after) := by
  have hcut := (passes_name h).cutTag?_eq after
  rw [ofMarkup, hcut, ← ofEndTag_name h]

end SoundTag

end ModuleLinker.Xml
