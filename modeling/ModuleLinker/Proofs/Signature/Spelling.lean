import Mathlib.Data.List.Infix
import ModuleLinker.Proofs.Renaming.Signature
import ModuleLinker.Proofs.Signature.Brackets
import ModuleLinker.Signature.Text
import Std.Data.String.ToNat

namespace ModuleLinker

/-! # What the text of a signature shows

The text of a signature has names where the signature has tokens, and it does not tell classes from
value types. Nothing else is lost: as long as the names do not look like other parts of a text, the
rest of the signature can be read off it.
-/

/-- A type as its text shows it. -/
inductive Spelling where
  | primitive (type : Primitive)
  | named (name : String)
  | array (element : Spelling)
  | byRef (target : Spelling)
  | pointer (target : Spelling)
  | typeParam (index : UInt32)
  | methodParam (index : UInt32)
  | instantiation (base : Spelling) (arguments : List Spelling)

namespace TypeSig

mutual

/-- What the text of a type shows, `name` giving the names of tokens. -/
def spelling (name : Token → String) : TypeSig → Spelling
  | .primitive p => .primitive p
  | .classType t => .named (name t)
  | .valueType t => .named (name t)
  | .array s => .array (s.spelling name)
  | .byRef s => .byRef (s.spelling name)
  | .pointer s => .pointer (s.spelling name)
  | .typeParam n => .typeParam n
  | .methodParam n => .methodParam n
  | .instantiation base arguments =>
    .instantiation (base.spelling name) (spellingAll name arguments)

/-- What the texts of several types show. -/
def spellingAll (name : Token → String) : List TypeSig → List Spelling
  | [] => []
  | s :: rest => s.spelling name :: spellingAll name rest

end

end TypeSig

namespace Spelling

/-- The digits of a number. -/
def digits (n : UInt32) : List Char := (toString n).toList

mutual

/-- The characters of the text. -/
def chars : Spelling → List Char
  | .primitive p => p.text.toList
  | .named name => name.toList
  | .array s => s.chars ++ ['[', ']']
  | .byRef s => s.chars ++ ['&']
  | .pointer s => s.chars ++ ['*']
  | .typeParam n => '!' :: digits n
  | .methodParam n => '!' :: '!' :: digits n
  | .instantiation base arguments =>
    base.chars ++ '<' :: ([','].intercalate (charsAll arguments) ++ ['>'])

/-- The characters of several texts. -/
def charsAll : List Spelling → List (List Char)
  | [] => []
  | s :: rest => s.chars :: charsAll rest

end

mutual

/-- The names in a text, from left to right. -/
def names : Spelling → List String
  | .primitive _ => []
  | .named name => [name]
  | .array s => s.names
  | .byRef s => s.names
  | .pointer s => s.names
  | .typeParam _ => []
  | .methodParam _ => []
  | .instantiation base arguments => base.names ++ namesAll arguments

/-- The names in several texts, from left to right. -/
def namesAll : List Spelling → List String
  | [] => []
  | s :: rest => s.names ++ namesAll rest

end

end Spelling

namespace TypeSig

mutual

theorem toList_describe (name : Token → String) (s : TypeSig) :
    (s.describe name).toList = (s.spelling name).chars := by
  cases s with
  | primitive p => rfl
  | classType t => rfl
  | valueType t => rfl
  | array s =>
    rw [describe, String.toList_append, toList_describe name s]
    rfl
  | byRef s =>
    rw [describe, String.toList_append, toList_describe name s]
    rfl
  | pointer s =>
    rw [describe, String.toList_append, toList_describe name s]
    rfl
  | typeParam n =>
    rw [describe, String.toList_append]
    rfl
  | methodParam n =>
    rw [describe, String.toList_append]
    rfl
  | instantiation base arguments =>
    rw [describe, String.toList_append, String.toList_append, String.toList_append,
      String.toList_intercalate, toList_describe name base, toList_describeAll name arguments,
      List.append_assoc, List.append_assoc]
    rfl

theorem toList_describeAll (name : Token → String) (ss : List TypeSig) :
    (describeAll name ss).map String.toList = Spelling.charsAll (spellingAll name ss) := by
  cases ss with
  | nil => rfl
  | cons s ss =>
    rw [describeAll, List.map_cons, toList_describe name s, toList_describeAll name ss]
    rfl

end

mutual

/-- The names in the text of a type are those of its tokens. -/
theorem names_spelling (name : Token → String) (s : TypeSig) :
    (s.spelling name).names = s.tokens.map name := by
  cases s with
  | primitive p => rfl
  | classType t => rfl
  | valueType t => rfl
  | array s => exact names_spelling name s
  | byRef s => exact names_spelling name s
  | pointer s => exact names_spelling name s
  | typeParam n => rfl
  | methodParam n => rfl
  | instantiation base arguments =>
    rw [spelling, Spelling.names, names_spelling name base, namesAll_spelling name arguments, tokens,
      List.map_append]

theorem namesAll_spelling (name : Token → String) (ss : List TypeSig) :
    Spelling.namesAll (spellingAll name ss) = (tokensOf ss).map name := by
  cases ss with
  | nil => rfl
  | cons s ss =>
    rw [spellingAll, Spelling.namesAll, names_spelling name s, namesAll_spelling name ss, tokensOf,
      List.map_append]

end

end TypeSig

/-! ## Names that cannot be mistaken -/

/-- The characters that texts of signatures use between names. -/
def signatureMarks : List Char := ['[', ']', '&', '*', '!', '<', '>', ',', '(', ')']

/-- A name that looks like no other part of the text of a signature. -/
structure PlainName (name : String) : Prop where
  nonempty : name ≠ ""
  noPrimitive : name ∉ Primitive.all.map Primitive.text
  noMark : ∀ c ∈ name.toList, c ∉ signatureMarks
  noArity : ¬ ['`', '`'] <:+: name.toList

instance (name : String) : Decidable (PlainName name) :=
  decidable_of_iff (name ≠ "" ∧ name ∉ Primitive.all.map Primitive.text ∧
      name.toList.all (fun c => decide (c ∉ signatureMarks)) ∧ ¬ ['`', '`'] <:+: name.toList)
    ⟨fun ⟨a, b, c, d⟩ => ⟨a, b, fun x hx => of_decide_eq_true (List.all_eq_true.1 c x hx), d⟩,
      fun ⟨a, b, c, d⟩ => ⟨a, b, List.all_eq_true.2 fun x hx => decide_eq_true (c x hx), d⟩⟩

namespace Primitive

theorem mem_all (p : Primitive) : p ∈ all := by
  cases p <;> decide

theorem noMark_text (p : Primitive) : ∀ c ∈ p.text.toList, c ∉ signatureMarks ∧ c ≠ '`' := by
  have hall : p.text.toList.all (fun c => decide (c ∉ signatureMarks ∧ c ≠ '`')) := by
    cases p <;> decide
  exact fun c hc => of_decide_eq_true (List.all_eq_true.1 hall c hc)

theorem eq_of_text_eq {p q : Primitive} (h : p.text = q.text) : p = q := by
  cases p <;> cases q <;> first | rfl | exact absurd h (by decide)

end Primitive

namespace Spelling

/-- All names in a text are plain. -/
def Plain (s : Spelling) : Prop := ∀ name ∈ s.names, PlainName name

/-- All names in several texts are plain. -/
def PlainAll (ss : List Spelling) : Prop := ∀ name ∈ namesAll ss, PlainName name

theorem Plain.base {base : Spelling} {arguments : List Spelling}
    (h : (instantiation base arguments).Plain) : base.Plain :=
  fun name hname => h name (List.mem_append_left _ hname)

theorem Plain.arguments {base : Spelling} {arguments : List Spelling}
    (h : (instantiation base arguments).Plain) : PlainAll arguments :=
  fun name hname => h name (List.mem_append_right _ hname)

theorem PlainAll.head {s : Spelling} {ss : List Spelling} (h : PlainAll (s :: ss)) : s.Plain :=
  fun name hname => h name (List.mem_append_left _ hname)

theorem PlainAll.tail {s : Spelling} {ss : List Spelling} (h : PlainAll (s :: ss)) : PlainAll ss :=
  fun name hname => h name (List.mem_append_right _ hname)

theorem Plain.name {name : String} (h : (named name).Plain) : PlainName name :=
  h name List.mem_cons_self

end Spelling

namespace TypeSig

theorem plain_spelling {name : Token → String} {s : TypeSig} :
    (s.spelling name).Plain ↔ ∀ t ∈ s.tokens, PlainName (name t) := by
  rw [Spelling.Plain, names_spelling, List.forall_mem_map]

theorem plainAll_spelling {name : Token → String} {ss : List TypeSig} :
    Spelling.PlainAll (spellingAll name ss) ↔ ∀ t ∈ tokensOf ss, PlainName (name t) := by
  rw [Spelling.PlainAll, namesAll_spelling, List.forall_mem_map]

end TypeSig

namespace Spelling

/-! ## Numbers -/

theorem isDigit_of_mem_digits {n : UInt32} {c : Char} (hc : c ∈ digits n) : c.isDigit := by
  have hrepr : digits n = Nat.toDigits 10 n.toNat := Nat.toList_repr
  rw [hrepr] at hc
  exact Nat.isDigit_of_mem_toDigits (by decide) (by decide) hc

theorem digits_ne_nil (n : UInt32) : digits n ≠ [] := by
  have hrepr : digits n = Nat.toDigits 10 n.toNat := Nat.toList_repr
  rw [hrepr]
  exact Nat.toDigits_ne_nil

theorem noMark_digits {n : UInt32} {c : Char} (hc : c ∈ digits n) : c ∉ signatureMarks ∧ c ≠ '`' := by
  have hdigit := isDigit_of_mem_digits hc
  have hmarks : signatureMarks.all (fun c => decide (¬ c.isDigit)) := by decide
  constructor
  · exact fun hmark => of_decide_eq_true (List.all_eq_true.1 hmarks c hmark) hdigit
  · rintro rfl
    exact absurd hdigit (by decide)

theorem digits_injective {m n : UInt32} (h : digits m = digits n) : m = n := by
  have hrepr := Nat.repr_inj.1 (String.toList_inj.1 h)
  exact UInt32.toNat_inj.1 hrepr

/-! ## Brackets in texts -/

theorem enclosed_of_noMark {w : List Char} (h : ∀ c ∈ w, c ∉ signatureMarks) : Enclosed w := by
  refine enclosed_of_forall fun c hc => ⟨?_, ?_, ?_⟩
  all_goals
    rintro rfl
    exact absurd (by decide) (h _ hc)

mutual

/-- In the text of a type brackets are closed and commas stand inside of them. -/
theorem enclosed_chars (s : Spelling) (h : s.Plain) : Enclosed s.chars := by
  cases s with
  | primitive p => exact enclosed_of_noMark fun c hc => (p.noMark_text c hc).1
  | named name => exact enclosed_of_noMark h.name.noMark
  | array s => exact (enclosed_chars s h).append (enclosed_of_forall (by simp))
  | byRef s => exact (enclosed_chars s h).append (enclosed_of_forall (by simp))
  | pointer s => exact (enclosed_chars s h).append (enclosed_of_forall (by simp))
  | typeParam n =>
    have hmark : Enclosed ['!'] := enclosed_of_forall (by simp)
    exact hmark.append (enclosed_of_noMark fun c hc => (noMark_digits hc).1)
  | methodParam n =>
    have hmark : Enclosed ['!', '!'] := enclosed_of_forall (by simp)
    exact hmark.append (enclosed_of_noMark fun c hc => (noMark_digits hc).1)
  | instantiation base arguments =>
    have harguments := Balanced.intercalate fun x hx =>
      (enclosed_charsAll arguments h.arguments x hx).1.toBalanced
    exact (enclosed_chars base h.base).append harguments.enclosed

theorem enclosed_charsAll (ss : List Spelling) (h : PlainAll ss) :
    ∀ w ∈ charsAll ss, Enclosed w ∧ w ≠ [] := by
  cases ss with
  | nil => exact nofun
  | cons s ss =>
    have hne : s.chars ≠ [] := by
      cases s with
      | primitive p => cases p <;> decide
      | named name => exact fun hnil => h.head.name.nonempty (String.toList_inj.1 hnil)
      | array s => exact List.append_ne_nil_of_right_ne_nil _ (List.cons_ne_nil _ _)
      | byRef s => exact List.append_ne_nil_of_right_ne_nil _ (List.cons_ne_nil _ _)
      | pointer s => exact List.append_ne_nil_of_right_ne_nil _ (List.cons_ne_nil _ _)
      | typeParam n => exact List.cons_ne_nil _ _
      | methodParam n => exact List.cons_ne_nil _ _
      | instantiation base arguments =>
        exact List.append_ne_nil_of_right_ne_nil _ (List.cons_ne_nil _ _)
    exact List.forall_mem_cons.2 ⟨⟨enclosed_chars s h.head, hne⟩, enclosed_charsAll ss h.tail⟩

end

/-! ## The form of a type -/

/-- The forms that a type may have. -/
inductive Form where
  | primitive
  | named
  | array
  | byRef
  | pointer
  | typeParam
  | methodParam
  | instantiation
deriving DecidableEq

/-- The form of a type. -/
def form : Spelling → Form
  | .primitive _ => .primitive
  | .named _ => .named
  | .array _ => .array
  | .byRef _ => .byRef
  | .pointer _ => .pointer
  | .typeParam _ => .typeParam
  | .methodParam _ => .methodParam
  | .instantiation .. => .instantiation

/-- The form that a text without a mark at its end has. -/
def Form.ofWord (w : List Char) : Form :=
  if ['!', '!'] <+: w then .methodParam
  else if ['!'] <+: w then .typeParam
  else if w ∈ Primitive.all.map (fun p => p.text.toList) then .primitive
  else .named

/-- The form that a text has. -/
def Form.ofChars (w : List Char) : Form :=
  if w.getLast? = some ']' then .array
  else if w.getLast? = some '&' then .byRef
  else if w.getLast? = some '*' then .pointer
  else if w.getLast? = some '>' then .instantiation
  else .ofWord w

theorem Form.ofChars_of_noMark {w : List Char} (h : ∀ c ∈ w, c = '!' ∨ c ∉ signatureMarks) :
    ofChars w = ofWord w := by
  have hlast : ∀ c ∈ signatureMarks, c ≠ '!' → w.getLast? ≠ some c := by
    intro c hc hne heq
    rcases h c (List.mem_of_getLast? heq) with rfl | hnot
    · exact hne rfl
    · exact hnot hc
  rw [ofChars, if_neg (hlast _ (by decide) (by decide)), if_neg (hlast _ (by decide) (by decide)),
    if_neg (hlast _ (by decide) (by decide)), if_neg (hlast _ (by decide) (by decide))]

theorem Form.not_mark_first {w : List Char} (h : ∀ c ∈ w, c ∉ signatureMarks) : ¬ ['!'] <+: w := by
  rintro ⟨v, rfl⟩
  exact absurd (by decide) (h '!' List.mem_cons_self)

theorem Form.ofWord_of_noMark {w : List Char} (h : ∀ c ∈ w, c ∉ signatureMarks) :
    ofWord w = if w ∈ Primitive.all.map (fun p => p.text.toList) then .primitive else .named := by
  have htwo : ¬ ['!', '!'] <+: w := by
    rintro ⟨v, rfl⟩
    exact not_mark_first h ⟨'!' :: v, rfl⟩
  rw [ofWord, if_neg htwo, if_neg (not_mark_first h)]

/-- The last bracket of a text set apart. -/
theorem chars_instantiation (base : Spelling) (arguments : List Spelling) :
    (instantiation base arguments).chars =
      (base.chars ++ '<' :: [','].intercalate (charsAll arguments)) ++ ['>'] := by
  rw [chars, ← List.cons_append, ← List.append_assoc]

/-- The text of a type shows its form. -/
theorem ofChars_chars {s : Spelling} (h : s.Plain) : Form.ofChars s.chars = s.form := by
  cases s with
  | primitive p =>
    have hmark : ∀ c ∈ p.text.toList, c ∉ signatureMarks := fun c hc => (p.noMark_text c hc).1
    rw [chars, Form.ofChars_of_noMark fun c hc => .inr (hmark c hc), Form.ofWord_of_noMark hmark,
      if_pos (List.mem_map.2 ⟨p, p.mem_all, rfl⟩)]
    rfl
  | named name =>
    have hmark := h.name.noMark
    have hnot : name.toList ∉ Primitive.all.map (fun p => p.text.toList) := by
      intro hmem
      obtain ⟨p, hp, heq⟩ := List.mem_map.1 hmem
      exact h.name.noPrimitive (List.mem_map.2 ⟨p, hp, String.toList_inj.1 heq⟩)
    rw [chars, Form.ofChars_of_noMark fun c hc => .inr (hmark c hc), Form.ofWord_of_noMark hmark,
      if_neg hnot]
    rfl
  | array s =>
    have hlast : (s.chars ++ ['[', ']']).getLast? = some ']' := by simp
    rw [chars, Form.ofChars, if_pos hlast]
    rfl
  | byRef s =>
    rw [chars, Form.ofChars, List.getLast?_concat]
    rfl
  | pointer s =>
    rw [chars, Form.ofChars, List.getLast?_concat]
    rfl
  | typeParam n =>
    have htwo : ¬ ['!', '!'] <+: '!' :: digits n := by
      rintro ⟨v, heq⟩
      have hrest : ['!'] ++ v = digits n := (List.cons.inj heq).2
      exact Form.not_mark_first (fun c hc => (noMark_digits hc).1) ⟨v, hrest⟩
    have hone : ['!'] <+: '!' :: digits n := ⟨digits n, rfl⟩
    rw [chars, Form.ofChars_of_noMark, Form.ofWord, if_neg htwo, if_pos hone]
    · rfl
    · exact List.forall_mem_cons.2 ⟨.inl rfl, fun c hc => .inr (noMark_digits hc).1⟩
  | methodParam n =>
    have htwo : ['!', '!'] <+: '!' :: '!' :: digits n := ⟨digits n, rfl⟩
    rw [chars, Form.ofChars_of_noMark, Form.ofWord, if_pos htwo]
    · rfl
    · refine List.forall_mem_cons.2 ⟨.inl rfl, List.forall_mem_cons.2 ⟨.inl rfl, ?_⟩⟩
      exact fun c hc => .inr (noMark_digits hc).1
  | instantiation base arguments =>
    rw [chars_instantiation, Form.ofChars, List.getLast?_concat]
    rfl

mutual

/-- The text of a type with plain names determines it. -/
theorem eq_of_chars_eq (s t : Spelling) (hs : s.Plain) (ht : t.Plain) (h : s.chars = t.chars) :
    s = t := by
  have hform : s.form = t.form := by rw [← ofChars_chars hs, h, ofChars_chars ht]
  cases s <;> cases t <;> try (cases hform; done)
  case primitive.primitive p q => rw [Primitive.eq_of_text_eq (String.toList_inj.1 h)]
  case named.named m n => rw [String.toList_inj.1 h]
  case array.array s t => rw [eq_of_chars_eq s t hs ht (List.append_cancel_right h)]
  case byRef.byRef s t => rw [eq_of_chars_eq s t hs ht (List.append_cancel_right h)]
  case pointer.pointer s t => rw [eq_of_chars_eq s t hs ht (List.append_cancel_right h)]
  case typeParam.typeParam m n => rw [digits_injective (List.cons.inj h).2]
  case methodParam.methodParam m n =>
    rw [digits_injective (List.cons.inj (List.cons.inj h).2).2]
  case instantiation.instantiation base arguments base' arguments' =>
    have hargs := enclosed_charsAll arguments hs.arguments
    have hargs' := enclosed_charsAll arguments' ht.arguments
    rw [chars_instantiation, chars_instantiation] at h
    obtain ⟨hbase, hinner⟩ := eq_of_open_eq (.intercalate fun x hx => (hargs x hx).1.toBalanced)
      (.intercalate fun x hx => (hargs' x hx).1.toBalanced) (List.append_cancel_right h)
    rw [eq_of_chars_eq base base' hs.base ht.base hbase,
      eq_of_charsAll_eq arguments arguments' hs.arguments ht.arguments
        (eq_of_intercalate_eq hargs hargs' hinner)]

theorem eq_of_charsAll_eq (ss ts : List Spelling) (hs : PlainAll ss) (ht : PlainAll ts)
    (h : charsAll ss = charsAll ts) : ss = ts := by
  cases ss with
  | nil =>
    cases ts with
    | nil => rfl
    | cons t ts => exact nomatch h
  | cons s ss =>
    cases ts with
    | nil => exact nomatch h
    | cons t ts =>
      obtain ⟨hfirst, hrest⟩ := List.cons.inj h
      rw [eq_of_chars_eq s t hs.head ht.head hfirst, eq_of_charsAll_eq ss ts hs.tail ht.tail hrest]

end

end Spelling

end ModuleLinker
