import ModuleLinker.Proofs.Image.RoundTrip

namespace ModuleLinker

/-! # Images of modules that agree

An image holds strong names and the bits of floating point numbers, which the comparison of modules
looks through. Modules that agree have the same image exactly if they agree in these, too; in all
other parts, agreeing is being the same.
-/

/-! ## What the front of a list reveals -/

/-- Whatever follows two lists: if the wholes are the same, `p` holds and what follows is the same. -/
def Reveals (xs ys : List α) (p : Prop) : Prop := ∀ r s, xs ++ r = ys ++ s → p ∧ r = s

namespace Reveals

variable {xs ys xs' ys' : List α} {p q : Prop}

theorem same (xs : List α) : Reveals xs xs True := by
  intro r s h
  exact ⟨trivial, List.append_cancel_left h⟩

theorem imp (h : Reveals xs ys p) (hpq : p → q) : Reveals xs ys q := by
  intro r s heq
  exact (h r s heq).imp_left hpq

theorem append (h : Reveals xs ys p) (h' : Reveals xs' ys' q) : Reveals (xs ++ xs') (ys ++ ys') (p ∧ q) := by
  intro r s heq
  rw [List.append_assoc, List.append_assoc] at heq
  obtain ⟨hp, hrest⟩ := h _ _ heq
  obtain ⟨hq, hrs⟩ := h' _ _ hrest
  exact ⟨⟨hp, hq⟩, hrs⟩

theorem of_eq (h : Reveals xs ys p) (heq : xs = ys) : p := by
  refine (h [] [] ?_).1
  rw [heq]

end Reveals

namespace Encoding

/-- What the bytes of two written forms tell, if they fit. -/
def Reveals (e f : Encoding) (p : Prop) : Prop :=
  e.Fits → f.Fits → ModuleLinker.Reveals e.bytes f.bytes p

namespace Reveals

variable {e e' f f' : Encoding} {p q : Prop}

theorem same (e : Encoding) : e.Reveals e True := fun _ _ => .same e.bytes

theorem imp (h : e.Reveals f p) (hpq : p → q) : e.Reveals f q := fun he hf => (h he hf).imp hpq

theorem append (h : e.Reveals f p) (h' : e'.Reveals f' q) : (e ++ e').Reveals (f ++ f') (p ∧ q) := by
  intro he hf
  rw [bytes_append he.left.fault_eq, bytes_append hf.left.fault_eq]
  exact (h he.left hf.left).append (h' he.right hf.right)

theorem before (h : e.Reveals f p) : (e ++ e').Reveals (f ++ e') p :=
  (h.append (same e')).imp And.left

theorem after (h : e'.Reveals f' p) : (e ++ e').Reveals (e ++ f') p :=
  ((same e).append h).imp And.right

/-- What is read back is told by the bytes. -/
theorem of_readsBack {r : Reader α} {v w : α} (he : e.ReadsBack r v) (hf : f.ReadsBack r w) :
    e.Reveals f (v = w) := by
  intro hefits hffits rest rest' heq
  have hread := he hefits rest 0
  rw [heq, hf hffits rest' 0] at hread
  simp only [Prod.mk.injEq, Except.ok.injEq, Cursor.mk.injEq] at hread
  exact ⟨hread.1.symm, hread.2.1.symm⟩

end Reveals

end Encoding

/-! ## Parts that agree -/

section

variable {same : α → α → Bool}

/-- Lists that agree one by one are told if their elements are. -/
theorem reveals_flatMap {w : α → List β} (hw : ∀ x y, same x y → Reveals (w x) (w y) (x = y))
    {xs ys : List α} (h : xs.isEqv ys same) : Reveals (xs.flatMap w) (ys.flatMap w) (xs = ys) := by
  induction xs generalizing ys with
  | nil =>
    cases ys with
    | nil => exact (Reveals.same []).imp fun _ => rfl
    | cons y ys => exact nomatch h
  | cons x xs ih =>
    cases ys with
    | nil => exact nomatch h
    | cons y ys =>
      obtain ⟨hx, hxs⟩ := Bool.and_eq_true_iff.1 h
      rw [List.flatMap_cons, List.flatMap_cons]
      apply ((hw x y hx).append (ih hxs)).imp
      rintro ⟨rfl, rfl⟩
      rfl

theorem length_eq_of_isEqv {xs ys : List α} (h : xs.isEqv ys same) : xs.length = ys.length := by
  induction xs generalizing ys with
  | nil =>
    cases ys with
    | nil => rfl
    | cons y ys => exact nomatch h
  | cons x xs ih =>
    cases ys with
    | nil => exact nomatch h
    | cons y ys => rw [List.length_cons, List.length_cons, ih (Bool.and_eq_true_iff.1 h).2]

namespace Encoding

/-- Agreeing elements are told by the list in which they are written. -/
theorem reveals_list {encode : α → Encoding}
    (hencode : ∀ x y, same x y → (encode x).Reveals (encode y) (x = y)) {xs ys : List α}
    (h : xs.isEqv ys same) : (list encode xs).Reveals (list encode ys) (xs = ys) := by
  unfold list
  rw [length_eq_of_isEqv h]
  apply Reveals.after
  induction xs generalizing ys with
  | nil =>
    cases ys with
    | nil => exact (Reveals.same _).imp fun _ => rfl
    | cons y ys => exact nomatch h
  | cons x xs ih =>
    cases ys with
    | nil => exact nomatch h
    | cons y ys =>
      obtain ⟨hx, hxs⟩ := Bool.and_eq_true_iff.1 h
      apply ((hencode x y hx).append (ih hxs)).imp
      rintro ⟨rfl, rfl⟩
      rfl

end Encoding

end

/-! ## Bodies -/

theorem Operand.agrees_cases {x y : Operand} (h : x.agrees y) :
    x = y ∨ ∃ a b, x = .f64 a ∧ y = .f64 b := by
  unfold Operand.agrees at h
  split at h
  case h_1 a b => exact .inr ⟨a, b, rfl, rfl⟩
  case h_2 => exact .inl (beq_iff_eq.1 h)

theorem Operand.reveals_float {x y : Operand} (h : x.agrees y) :
    Reveals x.float?.toList y.float?.toList (x = y) := by
  rcases Operand.agrees_cases h with rfl | ⟨a, b, rfl, rfl⟩
  · exact (Reveals.same _).imp fun _ => rfl
  · intro r s heq
    obtain ⟨hab, hrs⟩ := List.cons.inj heq
    exact ⟨congrArg Operand.f64 hab, hrs⟩

theorem Instruction.reveals_float {i j : Instruction} (h : i.agrees j) :
    Reveals i.operand.float?.toList j.operand.float?.toList (i = j) := by
  cases i
  cases j
  simp only [Instruction.agrees, Bool.and_eq_true, beq_iff_eq] at h
  obtain ⟨⟨rfl, rfl⟩, hoperand⟩ := h
  apply (Operand.reveals_float hoperand).imp
  rintro rfl
  rfl

theorem Instruction.reveals_code (c d : List Instruction) :
    (Encoding.list Image.encodeInstruction c).Reveals (Encoding.list Image.encodeInstruction d) (c = d) :=
  .of_readsBack
    (Encoding.readsBack_list (fun i _ => Image.readsBack_instruction i) fun i _ => Image.instruction_ne_nil i)
    (Encoding.readsBack_list (fun i _ => Image.readsBack_instruction i) fun i _ => Image.instruction_ne_nil i)

namespace MethodBody

variable {a b : MethodBody}

/-- Bodies that agree differ in their code at most. -/
theorem agrees_code (h : a.agrees b) :
    b = { a with code := b.code } ∧ a.code.isEqv b.code Instruction.agrees := by
  cases a
  cases b
  simp only [agrees, Bool.and_eq_true, beq_iff_eq] at h
  obtain ⟨⟨⟨⟨⟨rfl, rfl⟩, rfl⟩, hcode⟩, rfl⟩, rfl⟩ := h
  exact ⟨rfl, hcode⟩

theorem reveals_floats (h : a.agrees b) : Reveals a.floats b.floats (a = b) := by
  obtain ⟨hb, hcode⟩ := agrees_code h
  have hreveals := reveals_flatMap (fun i j hij => Instruction.reveals_float hij) hcode
  unfold floats
  rw [List.filterMap_eq_flatMap_toList, List.filterMap_eq_flatMap_toList]
  apply hreveals.imp
  intro heq
  rw [hb, ← heq]

theorem reveals_encode (h : a.agrees b) : (Image.encodeBody a).Reveals (Image.encodeBody b) (a = b) := by
  obtain ⟨hb, -⟩ := agrees_code h
  have hreveals := (Instruction.reveals_code a.code b.code).imp fun heq => show a = b by rw [hb, ← heq]
  rw [hb] at hreveals ⊢
  unfold Image.encodeBody
  exact hreveals.after.before

end MethodBody

/-! ## Types -/

namespace Method

variable {x y : Method}

/-- Methods that agree differ in their bodies at most, and have bodies that agree if they have any. -/
theorem agrees_body (h : x.agrees y) :
    x = y ∨ ∃ a b, a.agrees b ∧ x.body = some a ∧ y = { x with body := some b } := by
  cases x with
  | mk token name flags signature body attributes =>
  cases y with
  | mk token' name' flags' signature' body' attributes' =>
  simp only [agrees, Bool.and_eq_true, beq_iff_eq] at h
  obtain ⟨⟨⟨⟨⟨rfl, rfl⟩, rfl⟩, rfl⟩, hbody⟩, rfl⟩ := h
  cases body with
  | none =>
    cases body' with
    | none => exact .inl rfl
    | some b => exact nomatch hbody
  | some a =>
    cases body' with
    | none => exact nomatch hbody
    | some b => exact .inr ⟨a, b, hbody, rfl, rfl⟩

theorem reveals_floats (h : x.agrees y) : Reveals x.floats y.floats (x = y) := by
  rcases agrees_body h with rfl | ⟨a, b, hab, hx, hy⟩
  · exact (Reveals.same _).imp fun _ => rfl
  · have hreveals := MethodBody.reveals_floats hab
    unfold floats
    rw [hx, hy]
    apply hreveals.imp
    rintro rfl
    rw [← hx]

theorem reveals_encode (h : x.agrees y) : (Image.encodeMethod x).Reveals (Image.encodeMethod y) (x = y) := by
  rcases agrees_body h with rfl | ⟨a, b, hab, hx, rfl⟩
  · exact (Encoding.Reveals.same _).imp fun _ => rfl
  · have hreveals := (MethodBody.reveals_encode hab).imp fun heq => show x = { x with body := some b } by
      rw [← heq, ← hx]
    unfold Image.encodeMethod
    rw [hx]
    exact hreveals.after.after.before

end Method

namespace TypeDef

/-- Types that agree differ in their methods and nested types at most, and these agree. -/
theorem agrees_parts {t u : TypeDef} (h : t.agrees u) :
    u = { t with methods := u.methods, nested := u.nested } ∧
      t.methods.isEqv u.methods Method.agrees ∧ agreeAll t.nested u.nested := by
  cases t
  cases u
  simp only [agrees, Bool.and_eq_true, beq_iff_eq] at h
  obtain ⟨⟨⟨⟨⟨⟨⟨⟨⟨⟨⟨⟨rfl, rfl⟩, rfl⟩, rfl⟩, rfl⟩, rfl⟩, rfl⟩, rfl⟩, hmethods⟩, rfl⟩, rfl⟩, hnested⟩, rfl⟩ := h
  exact ⟨rfl, hmethods, hnested⟩

theorem length_eq_of_agreeAll {ts us : List TypeDef} (h : agreeAll ts us) : ts.length = us.length := by
  induction ts generalizing us with
  | nil =>
    cases us with
    | nil => rfl
    | cons u us => exact nomatch h
  | cons t ts ih =>
    cases us with
    | nil => exact nomatch h
    | cons u us => rw [List.length_cons, List.length_cons, ih (Bool.and_eq_true_iff.1 h).2]

mutual

theorem reveals_floats {t u : TypeDef} (h : t.agrees u) : Reveals t.floats u.floats (t = u) := by
  obtain ⟨hu, hmethods, hnested⟩ := agrees_parts h
  obtain ⟨self, namespaceName, name, flags, base, interfaces, genericParams, fields, methods,
    properties, events, nested, attributes⟩ := t
  have hmethods := reveals_flatMap (fun x y hxy => Method.reveals_floats hxy) hmethods
  have hnested := reveals_floatsAll hnested
  rw [hu]
  apply (hmethods.append hnested).imp
  rintro ⟨rfl, rfl⟩
  rfl

theorem reveals_floatsAll {ts us : List TypeDef} (h : agreeAll ts us) :
    Reveals (floatsAll ts) (floatsAll us) (ts = us) := by
  cases ts with
  | nil =>
    cases us with
    | nil => exact (Reveals.same []).imp fun _ => rfl
    | cons u us => exact nomatch h
  | cons t ts =>
    cases us with
    | nil => exact nomatch h
    | cons u us =>
      obtain ⟨ht, hts⟩ := Bool.and_eq_true_iff.1 h
      apply ((reveals_floats ht).append (reveals_floatsAll hts)).imp
      rintro ⟨rfl, rfl⟩
      rfl

end

mutual

theorem reveals_encode {t u : TypeDef} (h : t.agrees u) :
    (Image.encodeType t).Reveals (Image.encodeType u) (t = u) := by
  obtain ⟨hu, hmethods, hnested⟩ := agrees_parts h
  have hcount := length_eq_of_agreeAll hnested
  obtain ⟨self, namespaceName, name, flags, base, interfaces, genericParams, fields, methods,
    properties, events, nested, attributes⟩ := t
  have hmethods := Encoding.reveals_list (fun x y hxy => Method.reveals_encode hxy) hmethods
  have hnested := reveals_encodeAll hnested
  rw [hu, Image.encodeType, Image.encodeType, ← hcount]
  apply Encoding.Reveals.before
  apply (hmethods.after.before.before.before.append hnested).imp
  rintro ⟨rfl, rfl⟩
  rfl

theorem reveals_encodeAll {ts us : List TypeDef} (h : agreeAll ts us) :
    (Image.encodeTypes ts).Reveals (Image.encodeTypes us) (ts = us) := by
  cases ts with
  | nil =>
    cases us with
    | nil => exact (Encoding.Reveals.same _).imp fun _ => rfl
    | cons u us => exact nomatch h
  | cons t ts =>
    cases us with
    | nil => exact nomatch h
    | cons u us =>
      obtain ⟨ht, hts⟩ := Bool.and_eq_true_iff.1 h
      apply ((reveals_encode ht).append (reveals_encodeAll hts)).imp
      rintro ⟨rfl, rfl⟩
      rfl

end

end TypeDef

/-! ## Modules -/

theorem Identity.eq_of_agrees {i j : Identity} (h : i.agrees j) (hname : i.strongName = j.strongName) :
    i = j := by
  cases i
  cases j
  simp only [agrees, Bool.and_eq_true, beq_iff_eq] at h
  obtain ⟨⟨rfl, rfl⟩, rfl⟩ := h
  cases hname
  rfl

theorem Identity.reveals_encode {i j : Identity} (h : i.agrees j) :
    (Image.encodeIdentity i).Reveals (Image.encodeIdentity j) (i = j) := by
  have hname : (Image.encodeStrongName i.strongName).Reveals (Image.encodeStrongName j.strongName) (i = j) :=
    (Encoding.Reveals.of_readsBack (Image.readsBack_strongName _) (Image.readsBack_strongName _)).imp
      (eq_of_agrees h)
  cases i
  cases j
  simp only [agrees, Bool.and_eq_true, beq_iff_eq] at h
  obtain ⟨⟨rfl, rfl⟩, rfl⟩ := h
  exact hname.after

/-- Identities that agree one by one and have the same strong names are the same. -/
theorem Identity.eq_of_agree {is js : List Identity} (h : is.isEqv js agrees)
    (hnames : is.map strongName = js.map strongName) : is = js := by
  induction is generalizing js with
  | nil =>
    cases js with
    | nil => rfl
    | cons j js => exact nomatch h
  | cons i is ih =>
    cases js with
    | nil => exact nomatch h
    | cons j js =>
      obtain ⟨hi, his⟩ := Bool.and_eq_true_iff.1 h
      obtain ⟨hname, hnames⟩ := List.cons.inj hnames
      rw [eq_of_agrees hi hname, ih his hnames]

namespace Module

variable {m n : Module}

/-- Modules that agree differ in identities and types at most, and these agree. -/
theorem agrees_parts (h : m.agrees n) :
    n = { m with identity := n.identity, references := n.references, types := n.types } ∧
      m.identity.agrees n.identity ∧ m.references.isEqv n.references Identity.agrees ∧
      TypeDef.agreeAll m.types n.types := by
  cases m
  cases n
  simp only [agrees, Bool.and_eq_true, beq_iff_eq] at h
  obtain ⟨⟨⟨⟨⟨⟨⟨⟨⟨⟨⟨hidentity, rfl⟩, rfl⟩, rfl⟩, hreferences⟩, rfl⟩, rfl⟩, htypes⟩, rfl⟩, rfl⟩, rfl⟩, rfl⟩ := h
  exact ⟨rfl, hidentity, hreferences, htypes⟩

/-- Agreement looks through strong names and floating point numbers, and through nothing else. -/
theorem eq_of_agrees (h : m.agrees n) (hnames : m.strongNames = n.strongNames)
    (hfloats : m.floats = n.floats) : m = n := by
  obtain ⟨hn, hidentity, hreferences, htypes⟩ := agrees_parts h
  obtain ⟨hname, hnames⟩ := List.cons.inj hnames
  have hidentity := Identity.eq_of_agrees hidentity hname
  have hreferences := Identity.eq_of_agree hreferences hnames
  have htypes := (TypeDef.reveals_floatsAll htypes).of_eq hfloats
  rw [hn, ← hidentity, ← hreferences, ← htypes]

/-- The payload tells modules that agree apart. -/
theorem reveals_payload (h : m.agrees n) :
    (Image.encodePayload m).Reveals (Image.encodePayload n) (m = n) := by
  obtain ⟨hn, hidentity, hreferences, htypes⟩ := agrees_parts h
  have hcount := TypeDef.length_eq_of_agreeAll htypes
  have hidentity := Identity.reveals_encode hidentity
  have hreferences := Encoding.reveals_list (fun i j hij => Identity.reveals_encode hij) hreferences
  have htypes := TypeDef.reveals_encodeAll htypes
  rw [hn]
  unfold Image.encodePayload Image.encodeHead Image.encodeTables
  rw [← hcount]
  apply Encoding.Reveals.before
  apply (Encoding.Reveals.append hidentity.before.before.before (.before (.before (.before
    (.append hreferences.before.before.before htypes))))).imp
  rintro ⟨hidentity, hreferences, htypes⟩
  rw [← hidentity, ← hreferences, ← htypes]

/-- The images of modules that agree are the same if and only if the modules, and those that they refer
to, have the same strong names, and the floating point numbers in their code have the same bits. -/
theorem image_eq_iff_of_agrees {i j : Image} (h : m.agrees n) (hi : Image.ofModule m = .ok i)
    (hj : Image.ofModule n = .ok j) :
    i.bytes = j.bytes ↔ m.strongNames = n.strongNames ∧ m.floats = n.floats := by
  constructor
  · intro hbytes
    obtain ⟨hmfits, hmbytes⟩ := Image.ofModule_spec hi
    obtain ⟨hnfits, hnbytes⟩ := Image.ofModule_spec hj
    rw [hmbytes, hnbytes] at hbytes
    have hpayload : (Image.encodePayload m).bytes = (Image.encodePayload n).bytes := by
      refine (List.append_inj hbytes ?_).2
      rw [Image.length_header, Image.length_header]
    have heq := (reveals_payload h hmfits hnfits).of_eq hpayload
    rw [heq]
    exact ⟨rfl, rfl⟩
  · rintro ⟨hnames, hfloats⟩
    obtain rfl := eq_of_agrees h hnames hfloats
    rw [Except.ok.inj (hi.symm.trans hj)]

/-- A module that refers to another one by its strong name, and loads a floating point number. -/
def loading (name : Option StrongName) (bits : UInt64) : Module :=
  let body := MethodBody.ofCode [(0x23, .f64 bits), (0x26, .none), (0x2A, .none)]
  let run : Method := ⟨⟨0x06000001⟩, "Run", ⟨0x96⟩, ⟨false, 0, .primitive .void, []⟩, some body, []⟩
  { ofIdentity ⟨"A", ⟨1, 0, 0, 0⟩, none, none⟩ .dll with
    references := [⟨"Library", ⟨1, 0, 0, 0⟩, none, name⟩]
    types := [⟨⟨0x02000001⟩, "N", "T", ⟨0x1⟩, none, [], [], [], [run], [], [], [], []⟩] }

theorem image_eq_iff_of_agrees_zeros :
    (loading none 0).agrees (loading none 0x8000000000000000) ∧
      ∃ i j, Image.ofModule (loading none 0) = .ok i ∧
        Image.ofModule (loading none 0x8000000000000000) = .ok j ∧ i.bytes ≠ j.bytes := by
  have hagrees : (loading none 0).agrees (loading none 0x8000000000000000) := by decide
  have hok : (Image.ofModule (loading none 0)).isOk := by decide +kernel
  have hok' : (Image.ofModule (loading none 0x8000000000000000)).isOk := by decide +kernel
  obtain ⟨i, hi⟩ := exists_eq_ok hok
  obtain ⟨j, hj⟩ := exists_eq_ok hok'
  refine ⟨hagrees, i, j, hi, hj, ?_⟩
  intro hbytes
  have hfloats := ((image_eq_iff_of_agrees hagrees hi hj).1 hbytes).2
  exact absurd hfloats (by decide)

/-- A reference with a token agrees with one without a strong name, and is written differently. -/
theorem image_ne_of_strongName :
    (loading none 0).agrees (loading (some (.token 7)) 0) ∧
      ∃ i j, Image.ofModule (loading none 0) = .ok i ∧
        Image.ofModule (loading (some (.token 7)) 0) = .ok j ∧ i.bytes ≠ j.bytes := by
  have hok : (Image.ofModule (loading none 0)).isOk := by decide +kernel
  have hok' : (Image.ofModule (loading (some (.token 7)) 0)).isOk := by decide +kernel
  have hne : (Image.ofModule (loading none 0)).toOption.map Image.bytes ≠
      (Image.ofModule (loading (some (.token 7)) 0)).toOption.map Image.bytes := by
    decide +kernel
  obtain ⟨i, hi⟩ := exists_eq_ok hok
  obtain ⟨j, hj⟩ := exists_eq_ok hok'
  refine ⟨by decide, i, j, hi, hj, ?_⟩
  intro hbytes
  rw [hi, hj] at hne
  exact hne (congrArg some hbytes)

end Module

end ModuleLinker
