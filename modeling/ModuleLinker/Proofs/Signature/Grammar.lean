import ModuleLinker.Proofs.Bytes.SelfDelimiting
import ModuleLinker.Proofs.Signature.WriteBack

namespace ModuleLinker

/-! # The bytes of signatures

A grammar of the bytes that are read as signatures. Whatever the reader answers, it took a form of the
answer, and every form is read as what it says wherever it stands. Numbers are also read from more bytes
than they need, so a signature can have other forms beside the one that is written.

A form tells the coded indices in it, in their order, since the tokens of the signature do not say which
indices they were read from.
-/

open Reader

/-! ## Coded indices -/

namespace Token

/-- A coded index has one of the two tags of tables that hold types. -/
def IsCoded (index : UInt32) : Prop := index.toNat % 4 < 2

/-- The token that is read from a coded index. -/
def ofCoded (index : UInt32) : Token :=
  .ofRow (if index.toNat % 4 = 0 then Table.typeDef else Table.typeRef) (index >>> 2)

theorem and_three (index : UInt32) : (index &&& 3).toNat = index.toNat % 4 := by
  have hmask (x : Nat) : x &&& 3 = x % 2 ^ 2 := Nat.and_two_pow_sub_one_eq_mod x 2
  rw [UInt32.toNat_and]
  exact hmask _

theorem and_three_eq_iff (index tag : UInt32) : index &&& 3 = tag ↔ index.toNat % 4 = tag.toNat := by
  rw [← and_three]
  exact UInt32.toNat_inj.symm

/-- A coded index is read as its token, and other numbers are refused. -/
theorem decodeCoded_eq : decodeCoded = (do
    let index ← Reader.compressed
    if index.toNat % 4 < 2 then return .ofCoded index
    Reader.refuse (.codedTag (index &&& 3).toNat)) := by
  unfold decodeCoded
  congr 1
  funext index
  dsimp only
  have hzero := and_three_eq_iff index 0
  have hone := and_three_eq_iff index 1
  simp only [UInt32.reduceToNat] at hzero hone
  rw [ofCoded]
  by_cases h₀ : index.toNat % 4 = 0
  · rw [if_pos (hzero.2 h₀), if_pos (by omega), if_pos h₀]
  · rw [if_neg fun h => h₀ (hzero.1 h), if_neg h₀]
    by_cases h₁ : index.toNat % 4 = 1
    · rw [if_pos (hone.2 h₁), if_pos (by omega)]
    · rw [if_neg fun h => h₁ (hone.1 h), if_neg (by omega)]

theorem accepts_decodeCoded : decodeCoded.Accepts fun t taken =>
    ∃ index, CompressedForm taken index ∧ IsCoded index ∧ t = ofCoded index := by
  rw [decodeCoded_eq]
  refine accepts_compressed.bind fun index a hform => ?_
  split_ifs with hcoded
  · refine .pure ⟨index, ?_, hcoded, rfl⟩
    rwa [List.append_nil]
  · exact .refuse

theorem reads_decodeCoded {taken : Bytes} {index : UInt32} (hform : CompressedForm taken index)
    (hcoded : IsCoded index) : decodeCoded.Reads taken (ofCoded index) := by
  rw [decodeCoded_eq]
  have h := hform.reads.bind (f := fun index => do
    if index.toNat % 4 < 2 then return ofCoded index
    Reader.refuse (.codedTag (index &&& 3).toNat)) (b := []) (w := ofCoded index) ?_
  · rwa [List.append_nil] at h
  · rw [if_pos (show index.toNat % 4 < 2 from hcoded)]
    exact .pure _

theorem advances_decodeCoded : decodeCoded.Advances := by
  rw [decodeCoded_eq]
  refine advances_stepwise.bind advances_compressed fun index => ?_
  split_ifs
  · exact advances_stepwise.pure _
  · exact advances_refuse

end Token

/-! ## Types -/

mutual

/-- Bytes that are read as a type, with the coded indices in them. -/
inductive TypeForm : Bytes → List UInt32 → TypeSig → Prop where
  | primitive (p : Primitive) : TypeForm [p.code] [] (.primitive p)
  | pointer {bytes : Bytes} {indices : List UInt32} {s : TypeSig} (hs : TypeForm bytes indices s) :
    TypeForm (0x0F :: bytes) indices (.pointer s)
  | byRef {bytes : Bytes} {indices : List UInt32} {s : TypeSig} (hs : TypeForm bytes indices s) :
    TypeForm (0x10 :: bytes) indices (.byRef s)
  | valueType {bytes : Bytes} {index : UInt32} (hform : CompressedForm bytes index)
    (hcoded : Token.IsCoded index) : TypeForm (0x11 :: bytes) [index] (.valueType (.ofCoded index))
  | classType {bytes : Bytes} {index : UInt32} (hform : CompressedForm bytes index)
    (hcoded : Token.IsCoded index) : TypeForm (0x12 :: bytes) [index] (.classType (.ofCoded index))
  | typeParam {bytes : Bytes} {n : UInt32} (hform : CompressedForm bytes n) :
    TypeForm (0x13 :: bytes) [] (.typeParam n)
  | instantiation {bytes bytes' bytes'' : Bytes} {indices indices' : List UInt32} {base : TypeSig}
    {n : UInt32} {arguments : List TypeSig} (hbase : TypeForm bytes indices base)
    (hnamed : base.isNamed) (hcount : CompressedForm bytes' n) (hlength : n.toNat = arguments.length)
    (harguments : TypesForm bytes'' indices' arguments) :
    TypeForm (0x15 :: (bytes ++ (bytes' ++ bytes''))) (indices ++ indices') (.instantiation base arguments)
  | array {bytes : Bytes} {indices : List UInt32} {s : TypeSig} (hs : TypeForm bytes indices s) :
    TypeForm (0x1D :: bytes) indices (.array s)
  | methodParam {bytes : Bytes} {n : UInt32} (hform : CompressedForm bytes n) :
    TypeForm (0x1E :: bytes) [] (.methodParam n)

/-- Bytes that are read as types one after another, with the coded indices in them. -/
inductive TypesForm : Bytes → List UInt32 → List TypeSig → Prop where
  | nil : TypesForm [] [] []
  | cons {bytes bytes' : Bytes} {indices indices' : List UInt32} {s : TypeSig} {ss : List TypeSig}
    (hs : TypeForm bytes indices s) (hss : TypesForm bytes' indices' ss) :
    TypesForm (bytes ++ bytes') (indices ++ indices') (s :: ss)

end

theorem TypeForm.length_pos {bytes : Bytes} {indices : List UInt32} {s : TypeSig}
    (h : TypeForm bytes indices s) : 0 < bytes.length := by
  cases h <;> exact Nat.succ_pos _

/-- Each of the types takes a byte at least. -/
theorem TypesForm.length_le {bytes : Bytes} {indices : List UInt32} {ss : List TypeSig}
    (h : TypesForm bytes indices ss) : ss.length ≤ bytes.length := by
  induction ss generalizing bytes indices with
  | nil => exact Nat.zero_le _
  | cons s ss ih =>
    cases h with
    | cons hs hss =>
      have hpos := hs.length_pos
      have hle := ih hss
      rw [List.length_cons, List.length_append]
      omega

section Lists

variable {element : Reader TypeSig}

theorem accepts_types (h : element.Accepts fun s taken => ∃ indices, TypeForm taken indices s) (n : Nat) :
    (times element n).Accepts fun ss taken =>
      ss.length = n ∧ ∃ indices, TypesForm taken indices ss := by
  induction n with
  | zero => exact .pure ⟨rfl, [], .nil⟩
  | succ n ih =>
    apply h.bind
    rintro s a ⟨indices, hs⟩
    apply ih.map
    rintro ss b ⟨hlength, indices', hss⟩
    refine ⟨?_, _, .cons hs hss⟩
    rw [List.length_cons, hlength]

/-- Types are read where each of them is. -/
theorem reads_types {bytes : Bytes} {indices : List UInt32} {ss : List TypeSig}
    (hform : TypesForm bytes indices ss)
    (h : ∀ part indices s, TypeForm part indices s → part.length ≤ bytes.length → element.Reads part s) :
    (times element ss.length).Reads bytes ss := by
  induction ss generalizing bytes indices with
  | nil =>
    cases hform
    exact .pure []
  | cons s ss ih =>
    cases hform with
    | @cons bytes bytes' _ _ _ _ hs hss =>
      have hlength : (bytes ++ bytes').length = bytes.length + bytes'.length := List.length_append
      have hhead := h _ _ s hs (by omega)
      have htail := ih hss fun part indices t ht hle => h part indices t ht (by omega)
      exact hhead.bind (htail.map _)

end Lists

namespace TypeSig

theorem code_of_ofCode? {code : UInt8} {p : Primitive} (h : Primitive.ofCode? code = some p) :
    p.code = code := by
  have hcode := List.find?_some h
  exact beq_iff_eq.1 hcode

theorem accepts_instantiation {depth : Nat}
    (ih : (decodeWithin depth).Accepts fun s taken => ∃ indices, TypeForm taken indices s) :
    (do
      let base ← decodeWithin depth
      if !base.isNamed then Reader.refuse (.instantiationBase (← Reader.position))
      return instantiation base (← Reader.list (decodeWithin depth))).Accepts
      fun s taken => ∃ indices, TypeForm (0x15 :: taken) indices s := by
  apply ih.bind
  rintro base a ⟨indices, hbase⟩
  by_cases hnamed : base.isNamed
  · rw [hnamed]
    have hlist : (Reader.list (decodeWithin depth)).Accepts fun ss taken =>
        ∃ a b k indices, taken = a ++ b ∧ CompressedForm a k ∧ k.toNat = ss.length ∧
          TypesForm b indices ss := by
      apply accepts_count.bind
      rintro n a ⟨k, hcount, hn⟩
      apply (accepts_types ih n).mono
      rintro ss b ⟨hlength, indices, hss⟩
      exact ⟨a, b, k, indices, rfl, hcount, by omega, hss⟩
    apply hlist.map
    rintro arguments _ ⟨b, b', k, indices', rfl, hcount, hlength, harguments⟩
    exact ⟨_, .instantiation hbase hnamed hcount hlength harguments⟩
  · rw [Bool.not_eq_true] at hnamed
    rw [hnamed]
    exact accepts_position.bind fun _ _ _ => .refused

/-- What is read as a type is a form of it. -/
theorem accepts_decodeWithin (depth : Nat) :
    (decodeWithin depth).Accepts fun s taken => ∃ indices, TypeForm taken indices s := by
  induction depth with
  | zero => exact .throw
  | succ depth ih =>
    unfold decodeWithin
    apply accepts_byte.bind
    intro code a ha
    subst ha
    split
    case h_1 p hp =>
      rw [← code_of_ofCode? hp]
      exact .pure ⟨_, .primitive p⟩
    split
    · apply ih.map
      rintro s a ⟨indices, hs⟩
      exact ⟨indices, .pointer hs⟩
    · apply ih.map
      rintro s a ⟨indices, hs⟩
      exact ⟨indices, .byRef hs⟩
    · apply Token.accepts_decodeCoded.map
      rintro t a ⟨index, hform, hcoded, rfl⟩
      exact ⟨_, .valueType hform hcoded⟩
    · apply Token.accepts_decodeCoded.map
      rintro t a ⟨index, hform, hcoded, rfl⟩
      exact ⟨_, .classType hform hcoded⟩
    · exact accepts_compressed.map fun n a hform => ⟨[], .typeParam hform⟩
    · exact accepts_instantiation ih
    · apply ih.map
      rintro s a ⟨indices, hs⟩
      exact ⟨indices, .array hs⟩
    · exact accepts_compressed.map fun n a hform => ⟨[], .methodParam hform⟩
    · exact .refuseAt

theorem accepts_decode : decode.Accepts fun s taken => ∃ indices, TypeForm taken indices s := by
  refine accepts_remaining.bind fun depth a ha => ?_
  subst ha
  exact accepts_decodeWithin depth

/-- A form is read as what it says, wherever it stands, if it has no more bytes than are allowed. -/
theorem reads_decodeWithin {depth : Nat} {bytes : Bytes} {indices : List UInt32} {s : TypeSig}
    (h : TypeForm bytes indices s) (hdepth : bytes.length ≤ depth) :
    (decodeWithin depth).Reads bytes s := by
  induction depth generalizing bytes indices s with
  | zero => exact absurd h.length_pos (by omega)
  | succ depth ih =>
    unfold decodeWithin
    cases h with
    | primitive p =>
      refine (reads_byte _).bind (b := []) ?_
      rw [ofCode?_code]
      exact .pure _
    | pointer hs => exact (reads_byte _).bind ((ih hs (Nat.le_of_succ_le_succ hdepth)).map TypeSig.pointer)
    | byRef hs => exact (reads_byte _).bind ((ih hs (Nat.le_of_succ_le_succ hdepth)).map TypeSig.byRef)
    | array hs => exact (reads_byte _).bind ((ih hs (Nat.le_of_succ_le_succ hdepth)).map TypeSig.array)
    | valueType hform hcoded =>
      exact (reads_byte _).bind ((Token.reads_decodeCoded hform hcoded).map TypeSig.valueType)
    | classType hform hcoded =>
      exact (reads_byte _).bind ((Token.reads_decodeCoded hform hcoded).map TypeSig.classType)
    | typeParam hform => exact (reads_byte _).bind (hform.reads.map TypeSig.typeParam)
    | methodParam hform => exact (reads_byte _).bind (hform.reads.map TypeSig.methodParam)
    | @instantiation bytes bytes' bytes'' _ _ base n arguments hbase hnamed hcount hlength harguments =>
      rw [List.length_cons, List.length_append, List.length_append] at hdepth
      have hlist : (Reader.list (decodeWithin depth)).Reads (bytes' ++ bytes'') arguments := by
        refine reads_counted hcount ?_ ?_
        · rw [hlength]
          exact harguments.length_le
        · rw [hlength]
          exact reads_types harguments fun part _ t ht hle => ih ht (by omega)
      refine (reads_byte _).bind ((ih hbase (by omega)).bind ?_)
      rw [hnamed]
      exact hlist.map (TypeSig.instantiation base)

theorem reads_decode {bytes : Bytes} {indices : List UInt32} {s : TypeSig} (h : TypeForm bytes indices s) :
    decode.Reads bytes s := by
  intro c c' hmoves
  -- as many levels are allowed as bytes are left
  have hdepth : bytes.length ≤ c.rest.length := by
    rw [hmoves.rest_eq, List.length_append]
    exact Nat.le_add_right _ _
  rw [decode, runAt_bind_of_ok (remaining_runAt c)]
  exact reads_decodeWithin h hdepth c c' hmoves

theorem advances_decodeWithin (depth : Nat) : (decodeWithin depth).Advances := by
  have hmap {α : Type} {r : Reader α} (hr : r.Advances) (f : α → TypeSig) :
      (r >>= fun a => pure (f a)).Advances :=
    advances_stepwise.bind hr fun _ => advances_stepwise.pure _
  induction depth with
  | zero => exact advances_throw
  | succ depth ih =>
    unfold decodeWithin
    refine advances_stepwise.bind advances_byte fun code => ?_
    split
    case h_1 => exact advances_stepwise.pure _
    split
    · exact hmap ih _
    · exact hmap ih _
    · exact hmap Token.advances_decodeCoded _
    · exact hmap Token.advances_decodeCoded _
    · exact hmap advances_compressed _
    · refine advances_stepwise.bind ih fun base => ?_
      have hlist := hmap (advances_list ih) (instantiation base)
      split_ifs
      · exact advances_stepwise.bind advances_position fun _ =>
          advances_stepwise.bind advances_refuse fun _ => hlist
      · exact hlist
    · exact hmap ih _
    · exact hmap advances_compressed _
    · exact advances_refuseAt

theorem advances_decode : decode.Advances :=
  advances_stepwise.bind advances_remaining fun depth => advances_decodeWithin depth

end TypeSig

/-! ## Members -/

/-- Bytes that are read as the number of generic parameters: a lead byte that does not tell of any has no such
bytes behind it. -/
inductive GenericsForm (lead : UInt8) : Bytes → UInt32 → Prop where
  | told {bytes : Bytes} {n : UInt32} (hlead : lead &&& genericConvention ≠ 0)
    (hform : CompressedForm bytes n) : GenericsForm lead bytes n
  | untold (hlead : lead &&& genericConvention = 0) : GenericsForm lead [] 0

/-- Bytes that are read as a method signature behind its lead byte, with the coded indices in them. The number
of parameters stands before the result. -/
inductive MethodTail (lead : UInt8) : Bytes → List UInt32 → MethodSig → Prop where
  | mk {a b c d : Bytes} {indices indices' : List UInt32} {generics n : UInt32} {result : TypeSig}
    {params : List TypeSig} (hgenerics : GenericsForm lead a generics) (hcount : CompressedForm b n)
    (hlength : n.toNat = params.length) (hresult : TypeForm c indices result)
    (hparams : TypesForm d indices' params) :
    MethodTail lead (a ++ (b ++ (c ++ d))) (indices ++ indices')
      ⟨lead &&& thisConvention != 0, generics, result, params⟩

/-- Bytes that are read as a method signature, with the coded indices in them. -/
inductive MethodForm : Bytes → List UInt32 → MethodSig → Prop where
  | mk {lead : UInt8} {bytes : Bytes} {indices : List UInt32} {s : MethodSig}
    (hlead : isFieldConvention lead = false) (htail : MethodTail lead bytes indices s) :
    MethodForm (lead :: bytes) indices s

/-- Bytes that are read as a member signature, with the coded indices in them. -/
inductive MemberForm : Bytes → List UInt32 → MemberSig → Prop where
  | field {lead : UInt8} {bytes : Bytes} {indices : List UInt32} {s : TypeSig}
    (hlead : isFieldConvention lead = true) (hs : TypeForm bytes indices s) :
    MemberForm (lead :: bytes) indices (.field s)
  | method {lead : UInt8} {bytes : Bytes} {indices : List UInt32} {s : MethodSig}
    (hlead : isFieldConvention lead = false) (htail : MethodTail lead bytes indices s) :
    MemberForm (lead :: bytes) indices (.method s)

namespace MethodSig

/-- Reads the number of generic parameters, if the lead byte tells of it. -/
def decodeGenerics (lead : UInt8) : Reader UInt32 :=
  if lead &&& genericConvention = 0 then pure 0 else compressed

theorem decodeAfter_eq (lead : UInt8) : decodeAfter lead = (do
    let genericParams ← decodeGenerics lead
    let count ← Reader.count
    let result ← TypeSig.decode
    let params ← times TypeSig.decode count
    return { hasThis := lead &&& thisConvention != 0, genericParams, result, params }) := by
  unfold decodeAfter decodeGenerics
  by_cases h : lead &&& genericConvention = 0
  · rw [if_neg (by simpa using h), if_pos h]
  · rw [if_pos (bne_iff_ne.2 h), if_neg h]

theorem accepts_decodeGenerics (lead : UInt8) :
    (decodeGenerics lead).Accepts fun n taken => GenericsForm lead taken n := by
  unfold decodeGenerics
  split_ifs with h
  · exact .pure (.untold h)
  · exact accepts_compressed.mono fun n a hform => .told h hform

theorem reads_decodeGenerics {lead : UInt8} {bytes : Bytes} {n : UInt32}
    (h : GenericsForm lead bytes n) : (decodeGenerics lead).Reads bytes n := by
  unfold decodeGenerics
  cases h with
  | told hlead hform =>
    rw [if_neg hlead]
    exact hform.reads
  | untold hlead =>
    rw [if_pos hlead]
    exact .pure 0

theorem advances_decodeGenerics (lead : UInt8) : (decodeGenerics lead).Advances := by
  unfold decodeGenerics
  split_ifs
  · exact advances_stepwise.pure 0
  · exact advances_compressed

theorem accepts_decodeAfter (lead : UInt8) :
    (decodeAfter lead).Accepts fun s taken => ∃ indices, MethodTail lead taken indices s := by
  rw [decodeAfter_eq]
  apply (accepts_decodeGenerics lead).bind
  intro generics a hgenerics
  apply accepts_count.bind
  rintro count b ⟨n, hcount, hn⟩
  apply TypeSig.accepts_decode.bind
  rintro result c ⟨indices, hresult⟩
  apply (accepts_types TypeSig.accepts_decode count).map
  rintro params d ⟨hlength, indices', hparams⟩
  exact ⟨_, .mk hgenerics hcount (by omega) hresult hparams⟩

theorem reads_decodeAfter {lead : UInt8} {bytes : Bytes} {indices : List UInt32} {s : MethodSig}
    (h : MethodTail lead bytes indices s) : (decodeAfter lead).Reads bytes s := by
  cases h with
  | @mk a b c d _ _ generics n result params hgenerics hcount hlength hresult hparams =>
    have htypes : (times TypeSig.decode n.toNat).Reads d params := by
      rw [hlength]
      exact reads_types hparams fun _ _ _ ht _ => TypeSig.reads_decode ht
    rw [decodeAfter_eq]
    refine (reads_decodeGenerics hgenerics).bind (reads_counted hcount ?_ ?_)
    · rw [hlength, List.length_append]
      exact hparams.length_le.trans (Nat.le_add_left _ _)
    · exact (TypeSig.reads_decode hresult).bind (htypes.map _)

theorem advances_decodeAfter (lead : UInt8) : (decodeAfter lead).Advances := by
  rw [decodeAfter_eq]
  exact advances_stepwise.bind (advances_decodeGenerics lead) fun generics =>
    advances_stepwise.bind advances_count fun count =>
    advances_stepwise.bind TypeSig.advances_decode fun result =>
    advances_stepwise.bind (advances_times TypeSig.advances_decode count) fun params =>
    advances_stepwise.pure _

theorem accepts_decode : decode.Accepts fun s taken => ∃ indices, MethodForm taken indices s := by
  refine accepts_byte.bind fun lead a ha => ?_
  subst ha
  split_ifs with hlead
  · exact .refused
  · exact (accepts_decodeAfter lead).mono fun s b ⟨indices, htail⟩ =>
      ⟨indices, .mk (Bool.eq_false_of_not_eq_true hlead) htail⟩

theorem reads_decode {bytes : Bytes} {indices : List UInt32} {s : MethodSig}
    (h : MethodForm bytes indices s) : decode.Reads bytes s := by
  cases h with
  | @mk lead bytes _ _ hlead htail =>
    refine (reads_byte lead).bind ?_
    rw [hlead]
    exact reads_decodeAfter htail

theorem advances_decode : decode.Advances := by
  refine advances_stepwise.bind advances_byte fun lead => ?_
  split_ifs
  · exact advances_stepwise.bind advances_refuse fun _ => advances_decodeAfter lead
  · exact advances_decodeAfter lead

end MethodSig

namespace MemberSig

theorem accepts_decode : decode.Accepts fun s taken => ∃ indices, MemberForm taken indices s := by
  refine accepts_byte.bind fun lead a ha => ?_
  subst ha
  split_ifs with hlead
  · apply TypeSig.accepts_decode.map
    rintro s b ⟨indices, hs⟩
    exact ⟨indices, .field hlead hs⟩
  · apply (MethodSig.accepts_decodeAfter lead).map
    rintro s b ⟨indices, htail⟩
    exact ⟨indices, .method (Bool.eq_false_of_not_eq_true hlead) htail⟩

theorem reads_decode {bytes : Bytes} {indices : List UInt32} {s : MemberSig}
    (h : MemberForm bytes indices s) : decode.Reads bytes s := by
  cases h with
  | @field lead bytes _ _ hlead hs =>
    refine (reads_byte lead).bind ?_
    rw [hlead]
    exact (TypeSig.reads_decode hs).map MemberSig.field
  | @method lead bytes _ _ hlead htail =>
    refine (reads_byte lead).bind ?_
    rw [hlead]
    exact (MethodSig.reads_decodeAfter htail).map MemberSig.method

theorem advances_decode : decode.Advances := by
  refine advances_stepwise.bind advances_byte fun lead => ?_
  split_ifs
  · exact advances_stepwise.bind TypeSig.advances_decode fun _ => advances_stepwise.pure _
  · exact advances_stepwise.bind (MethodSig.advances_decodeAfter lead) fun _ => advances_stepwise.pure _

end MemberSig

/-! ## All signatures -/

/-- Types, method signatures and member signatures show where they end. -/
theorem signatures_selfDelimiting :
    TypeSig.decode.SelfDelimiting ∧ MethodSig.decode.SelfDelimiting ∧ MemberSig.decode.SelfDelimiting := by
  refine ⟨selfDelimiting_of TypeSig.advances_decode ?_, selfDelimiting_of MethodSig.advances_decode ?_,
    selfDelimiting_of MemberSig.advances_decode ?_⟩
  · exact TypeSig.accepts_decode.mono fun _ _ ⟨_, h⟩ => TypeSig.reads_decode h
  · exact MethodSig.accepts_decode.mono fun _ _ ⟨_, h⟩ => MethodSig.reads_decode h
  · exact MemberSig.accepts_decode.mono fun _ _ ⟨_, h⟩ => MemberSig.reads_decode h

/-- A method of one parameter in the middle of other bytes: before other bytes it is read again, and without
its last byte the count of parameters is too large. -/
theorem signatures_selfDelimiting_method :
    let s : MethodSig := ⟨false, 0, .primitive .void, [.primitive .i4]⟩
    MethodSig.decode.runAt (.behind [0xAA, 0x00, 0x01, 0x01, 0x08, 0xBB] 1) =
      (.ok s, .behind [0xAA, 0x00, 0x01, 0x01, 0x08, 0xBB] 5) ∧
    MethodSig.decode.runAt (.behind [0x00, 0x01, 0x01, 0x08, 0xCC, 0xDD] 0) =
      (.ok s, .behind [0x00, 0x01, 0x01, 0x08, 0xCC, 0xDD] 4) ∧
    ∃ fault, (MethodSig.decode.runAt (.behind [0x00, 0x01, 0x01] 0)).1 = .error fault := by
  have hrun : MethodSig.decode.runAt (.behind [0xAA, 0x00, 0x01, 0x01, 0x08, 0xBB] 1) =
      (.ok ⟨false, 0, .primitive .void, [.primitive .i4]⟩,
        .behind [0xAA, 0x00, 0x01, 0x01, 0x08, 0xBB] (1 + 4)) := by
    decide
  exact ⟨hrun, signatures_selfDelimiting.2.1.repeats _ 1 4 _ hrun [] [0xCC, 0xDD],
    signatures_selfDelimiting.2.1.needsAll _ 1 4 _ hrun [] 3 (by decide)⟩

end ModuleLinker
