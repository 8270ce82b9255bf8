import ModuleLinker.Proofs.Member
import ModuleLinker.Proofs.Signature.Spelling

namespace ModuleLinker

/-! # What the key of a member shows

The key of a member holds its kind, its name and the text of its signature. Where the names of types
are plain, members of one key have the same signature but for two things: a name may stand for a class
in one of them and for a value type in the other, and it need not mean the same type.
-/

/-- What the text of a member's signature shows. -/
inductive MemberSpelling where
  | field (type : Spelling)
  | method (hasThis : Bool) (genericParams : UInt32) (result : Spelling) (params : List Spelling)

/-- What the text of a method's signature shows, `name` giving the names of tokens. -/
def MethodSig.spelling (name : Token → String) (s : MethodSig) : MemberSpelling :=
  .method s.hasThis s.genericParams (s.result.spelling name) (TypeSig.spellingAll name s.params)

/-- What the text of a member's signature shows. -/
def MemberSig.spelling (name : Token → String) : MemberSig → MemberSpelling
  | .field s => .field (s.spelling name)
  | .method s => s.spelling name

namespace Spelling

/-! ## The text of a method's signature -/

/-- The characters for a number of generic parameters. -/
def arity (n : UInt32) : List Char := if 0 < n then '`' :: '`' :: digits n else []

theorem mem_of_mem_intercalate {c : Char} {xs : List (List Char)}
    (h : c ∈ [','].intercalate xs) : c = ',' ∨ ∃ x ∈ xs, c ∈ x := by
  induction xs with
  | nil =>
    rw [List.intercalate_nil] at h
    exact absurd h List.not_mem_nil
  | cons x xs ih =>
    rcases xs with _ | ⟨y, ys⟩
    · rw [List.intercalate_singleton] at h
      exact .inr ⟨x, List.mem_cons_self, h⟩
    · rw [List.intercalate_cons_cons] at h
      rcases List.mem_append.1 h with hfirst | hrest
      · rcases List.mem_append.1 hfirst with hx | hcomma
        · exact .inr ⟨x, List.mem_cons_self, hx⟩
        · exact .inl (List.mem_singleton.1 hcomma)
      · exact (ih hrest).imp id fun ⟨z, hz, hc⟩ => ⟨z, List.mem_cons_of_mem _ hz, hc⟩

theorem noParen_digits (n : UInt32) : '(' ∉ digits n :=
  fun hmem => (noMark_digits hmem).1 (by decide)

mutual

/-- No text of a type has a parenthesis, which is what the parameters of a method are found by. -/
theorem noParen_chars (s : Spelling) (h : s.Plain) : '(' ∉ s.chars := by
  cases s with
  | primitive p => exact fun hmem => (p.noMark_text _ hmem).1 (by decide)
  | named name => exact fun hmem => h.name.noMark _ hmem (by decide)
  | array s => simpa [chars] using noParen_chars s h
  | byRef s => simpa [chars] using noParen_chars s h
  | pointer s => simpa [chars] using noParen_chars s h
  | typeParam n =>
    have hdigits := noParen_digits n
    simpa [chars] using hdigits
  | methodParam n =>
    have hdigits := noParen_digits n
    simpa [chars] using hdigits
  | instantiation base arguments =>
    have harguments : '(' ∉ [','].intercalate (charsAll arguments) := by
      intro hmem
      rcases mem_of_mem_intercalate hmem with heq | ⟨x, hx, hmem⟩
      · exact absurd heq (by decide)
      · exact noParen_charsAll arguments h.arguments x hx hmem
    simpa [chars, harguments] using noParen_chars base h.base

theorem noParen_charsAll (ss : List Spelling) (h : PlainAll ss) : ∀ w ∈ charsAll ss, '(' ∉ w := by
  cases ss with
  | nil => exact nofun
  | cons s ss =>
    exact List.forall_mem_cons.2 ⟨noParen_chars s h.head, noParen_charsAll ss h.tail⟩

end

theorem noParen_arity (n : UInt32) : '(' ∉ arity n := by
  unfold arity
  split
  · have hdigits := noParen_digits n
    simpa using hdigits
  · exact List.not_mem_nil

/-- The text of a type does not end like that of the result of a generic method. -/
theorem chars_ne_append_arity {s : Spelling} (h : s.Plain) (u : List Char) (n : UInt32) :
    s.chars ≠ u ++ '`' :: '`' :: digits n := by
  intro heq
  have hquote : '`' ∈ s.chars := by simp [heq]
  -- such a text has a digit at its end, where most forms of types have a mark
  have hlast : ∀ c, s.chars.getLast? = some c → c ∉ signatureMarks := by
    intro c hc
    have hdigits : (u ++ '`' :: '`' :: digits n).getLast? = (digits n).getLast? := by
      rw [List.append_cons, List.append_cons, List.getLast?_append_of_ne_nil _ (digits_ne_nil n)]
    rw [heq, hdigits] at hc
    exact (noMark_digits (List.mem_of_getLast? hc)).1
  cases s with
  | primitive p => exact (p.noMark_text _ hquote).2 rfl
  | named name =>
    have hinfix : u ++ ['`', '`'] ++ digits n = name.toList := by
      rw [List.append_assoc]
      exact heq.symm
    exact h.name.noArity ⟨u, digits n, hinfix⟩
  | array s => exact hlast ']' (by simp [chars]) (by decide)
  | byRef s => exact hlast '&' List.getLast?_concat (by decide)
  | pointer s => exact hlast '*' List.getLast?_concat (by decide)
  | typeParam m =>
    have hdigits : '`' ∈ digits m := by simpa [chars] using hquote
    exact (noMark_digits hdigits).2 rfl
  | methodParam m =>
    have hdigits : '`' ∈ digits m := by simpa [chars] using hquote
    exact (noMark_digits hdigits).2 rfl
  | instantiation base arguments =>
    rw [chars_instantiation] at hlast
    exact hlast '>' List.getLast?_concat (by decide)

/-- The result type of a method and its number of generic parameters can be told apart. -/
theorem eq_of_append_arity_eq {s t : Spelling} (hs : s.Plain) (ht : t.Plain) {m n : UInt32}
    (h : s.chars ++ arity m = t.chars ++ arity n) : s = t ∧ m = n := by
  unfold arity at h
  by_cases hm : 0 < m <;> by_cases hn : 0 < n
  · rw [if_pos hm, if_pos hn, List.append_cons, List.append_cons t.chars] at h
    obtain ⟨hchars, hdigits⟩ := eq_of_append_cons_eq h (fun hmem => (noMark_digits hmem).2 rfl)
      fun hmem => (noMark_digits hmem).2 rfl
    exact ⟨eq_of_chars_eq s t hs ht (List.append_cancel_right hchars), digits_injective hdigits⟩
  · rw [if_pos hm, if_neg hn, List.append_nil] at h
    exact absurd h.symm (chars_ne_append_arity ht _ m)
  · rw [if_neg hm, if_pos hn, List.append_nil] at h
    exact absurd h (chars_ne_append_arity hs _ n)
  · rw [if_neg hm, if_neg hn, List.append_nil, List.append_nil] at h
    have hzero : ∀ k : UInt32, ¬ 0 < k → k = 0 := fun k hk => UInt32.le_zero_iff.1 (UInt32.not_lt.1 hk)
    rw [hzero m hm, hzero n hn]
    exact ⟨eq_of_chars_eq s t hs ht h, rfl⟩

end Spelling

namespace MethodSig

theorem toList_describe (name : Token → String) (s : MethodSig) :
    (s.describe name).toList = (s.result.spelling name).chars ++ Spelling.arity s.genericParams ++
      '(' :: ([','].intercalate (Spelling.charsAll (TypeSig.spellingAll name s.params)) ++ [')']) := by
  have harity : (if 0 < s.genericParams then s!"``{s.genericParams}" else "").toList =
      Spelling.arity s.genericParams := by
    unfold Spelling.arity
    split
    · rw [String.toList_append]
      rfl
    · rfl
  rw [describe]
  simp only [String.toList_append, harity, TypeSig.toList_describe, String.toList_intercalate,
    TypeSig.toList_describeAll, List.append_assoc]
  rfl

/-- The text of a method's signature determines what it shows. -/
theorem spelling_eq {name name' : Token → String} {s t : MethodSig}
    (hs : ∀ u ∈ s.tokens, PlainName (name u)) (ht : ∀ u ∈ t.tokens, PlainName (name' u))
    (hthis : s.hasThis = t.hasThis) (h : s.describe name = t.describe name') :
    s.spelling name = t.spelling name' := by
  obtain ⟨hresult, hparams⟩ := List.forall_mem_append.1 hs
  obtain ⟨hresult', hparams'⟩ := List.forall_mem_append.1 ht
  rw [← TypeSig.plain_spelling] at hresult hresult'
  rw [← TypeSig.plainAll_spelling] at hparams hparams'
  -- the parenthesis that opens is the first one in the text
  have hfirst : '(' ∉ (s.result.spelling name).chars ++ Spelling.arity s.genericParams :=
    List.not_mem_append (Spelling.noParen_chars _ hresult) (Spelling.noParen_arity _)
  have hrest : '(' ∉ [','].intercalate (Spelling.charsAll (TypeSig.spellingAll name s.params)) ++
      [')'] := by
    refine List.not_mem_append (fun hmem => ?_) (by decide)
    rcases Spelling.mem_of_mem_intercalate hmem with heq | ⟨w, hw, hmem⟩
    · exact absurd heq (by decide)
    · exact Spelling.noParen_charsAll _ hparams w hw hmem
  have htext := congrArg String.toList h
  rw [toList_describe, toList_describe] at htext
  obtain ⟨hhead, -, htail⟩ := (List.append_cons_inj_of_notMem hfirst hrest).1 htext
  obtain ⟨hspelling, hgeneric⟩ := Spelling.eq_of_append_arity_eq hresult hresult' hhead
  have htexts := eq_of_intercalate_eq (Spelling.enclosed_charsAll _ hparams)
    (Spelling.enclosed_charsAll _ hparams') (List.append_cancel_right htail)
  rw [spelling, spelling, hthis, hgeneric, hspelling,
    Spelling.eq_of_charsAll_eq _ _ hparams hparams' htexts]

end MethodSig

namespace Member

/-- The signature of the member; that of an event is its type. -/
def signature : Member → MemberSig
  | .field x => .field x.signature
  | .method x => .method x.signature
  | .property x => .field x.signature
  | .event x => .field (.classType x.eventType)

/-- What the text of the member's signature shows, with the names that its module has for tokens. -/
def spelling (names : NameTable) (x : Member) : MemberSpelling := x.signature.spelling names.name

/-- The types that the member's signature names have plain names. -/
def Plain (names : NameTable) (x : Member) : Prop :=
  ∀ t ∈ x.signature.tokens, PlainName (names.name t)

instance (names : NameTable) (x : Member) : Decidable (x.Plain names) :=
  inferInstanceAs (Decidable (∀ t ∈ x.signature.tokens, PlainName (names.name t)))

theorem typeSpelling_eq {names names' : NameTable} {s t : TypeSig}
    (hs : ∀ u ∈ s.tokens, PlainName (names.name u)) (ht : ∀ u ∈ t.tokens, PlainName (names'.name u))
    (h : names.describe s = names'.describe t) : s.spelling names.name = t.spelling names'.name := by
  refine Spelling.eq_of_chars_eq _ _ (TypeSig.plain_spelling.2 hs) (TypeSig.plain_spelling.2 ht) ?_
  rw [← TypeSig.toList_describe, ← TypeSig.toList_describe]
  exact congrArg String.toList h

/-- Members of one key have signatures that differ in nothing that their texts show. -/
theorem spelling_eq_of_key_eq {names names' : NameTable} {x y : Member} (hx : x.Plain names)
    (hy : y.Plain names') (h : x.key names = y.key names') : x.spelling names = y.spelling names' := by
  cases x <;> cases y <;> try cases h
  case field.field x y =>
    exact congrArg MemberSpelling.field (typeSpelling_eq hx hy (MemberKey.field.inj h).2)
  case method.method x y =>
    obtain ⟨-, hthis, htext⟩ := MemberKey.method.inj h
    exact MethodSig.spelling_eq hx hy hthis htext
  case property.property x y =>
    exact congrArg MemberSpelling.field (typeSpelling_eq hx hy (MemberKey.property.inj h).2)
  case event.event x y =>
    have hname : names.name x.eventType = names'.name y.eventType := (MemberKey.event.inj h).2
    exact congrArg (fun name => MemberSpelling.field (.named name)) hname

end Member

/-! ## The types that a signature names

What the text of a signature does not show are its uses of types: which token stands at each place,
and whether as a class or as a value type. Signatures whose texts show the same are therefore equal
after a replacement of tokens exactly if their uses are.
-/

/-- A place of a signature where a type is named. -/
structure TypeUse where
  token : Token
  /-- The token stands there as that of a value type. -/
  isValue : Bool
deriving DecidableEq, Repr

/-- The use with its token replaced. -/
def TypeUse.rename (g : Token → Token) (u : TypeUse) : TypeUse := { u with token := g u.token }

/-- Two lists put together are two others put together, of which the first one is as long. -/
theorem append_eq_append_iff_of_length {as bs cs ds : List α} (h : as.length = cs.length) :
    as ++ bs = cs ++ ds ↔ as = cs ∧ bs = ds := by
  refine ⟨fun heq => List.append_inj heq h, ?_⟩
  rintro ⟨rfl, rfl⟩
  rfl

namespace TypeSig

mutual

/-- The uses of types in a type, from left to right. -/
def uses : TypeSig → List TypeUse
  | .primitive _ => []
  | .classType t => [⟨t, false⟩]
  | .valueType t => [⟨t, true⟩]
  | .array s => s.uses
  | .byRef s => s.uses
  | .pointer s => s.uses
  | .typeParam _ => []
  | .methodParam _ => []
  | .instantiation base arguments => base.uses ++ usesOf arguments

/-- The uses of types in several types, from left to right. -/
def usesOf : List TypeSig → List TypeUse
  | [] => []
  | s :: rest => s.uses ++ usesOf rest

end

mutual

theorem map_token_uses (s : TypeSig) : s.uses.map TypeUse.token = s.tokens := by
  cases s with
  | primitive p => rfl
  | classType t => rfl
  | valueType t => rfl
  | array s => exact map_token_uses s
  | byRef s => exact map_token_uses s
  | pointer s => exact map_token_uses s
  | typeParam n => rfl
  | methodParam n => rfl
  | instantiation base arguments =>
    rw [uses, List.map_append, map_token_uses base, map_token_usesOf arguments, tokens]

theorem map_token_usesOf (ss : List TypeSig) : (usesOf ss).map TypeUse.token = tokensOf ss := by
  cases ss with
  | nil => rfl
  | cons s ss => rw [usesOf, List.map_append, map_token_uses s, map_token_usesOf ss, tokensOf]

end

/-- There are as many uses as the text shows names. -/
theorem length_uses (name : Token → String) (s : TypeSig) :
    s.uses.length = (s.spelling name).names.length := by
  rw [names_spelling, List.length_map, ← map_token_uses, List.length_map]

variable {name name' : Token → String}

theorem length_map_uses {s t : TypeSig} (h : s.spelling name = t.spelling name')
    (g g' : Token → Token) :
    (s.uses.map (TypeUse.rename g)).length = (t.uses.map (TypeUse.rename g')).length := by
  rw [List.length_map, List.length_map, length_uses name s, h, ← length_uses name' t]

mutual

/-- Types that look the same become the same if and only if their uses do. -/
theorem rename_eq_rename_iff (g g' : Token → Token) (s t : TypeSig)
    (h : s.spelling name = t.spelling name') :
    s.rename g = t.rename g' ↔ s.uses.map (TypeUse.rename g) = t.uses.map (TypeUse.rename g') := by
  cases s <;> cases t <;> try (cases h; done)
  case primitive.primitive p q =>
    cases h
    exact iff_of_true rfl rfl
  case classType.classType t u => simp [rename, uses, TypeUse.rename]
  case classType.valueType t u => simp [rename, uses, TypeUse.rename]
  case valueType.classType t u => simp [rename, uses, TypeUse.rename]
  case valueType.valueType t u => simp [rename, uses, TypeUse.rename]
  case array.array s t =>
    rw [rename, rename, array.injEq]
    exact rename_eq_rename_iff g g' s t (Spelling.array.inj h)
  case byRef.byRef s t =>
    rw [rename, rename, byRef.injEq]
    exact rename_eq_rename_iff g g' s t (Spelling.byRef.inj h)
  case pointer.pointer s t =>
    rw [rename, rename, pointer.injEq]
    exact rename_eq_rename_iff g g' s t (Spelling.pointer.inj h)
  case typeParam.typeParam m n =>
    cases h
    exact iff_of_true rfl rfl
  case methodParam.methodParam m n =>
    cases h
    exact iff_of_true rfl rfl
  case instantiation.instantiation base arguments base' arguments' =>
    obtain ⟨hbase, harguments⟩ := Spelling.instantiation.inj h
    rw [rename, rename, instantiation.injEq, uses, uses, List.map_append, List.map_append,
      append_eq_append_iff_of_length (length_map_uses hbase g g'),
      rename_eq_rename_iff g g' base base' hbase,
      renameAll_eq_renameAll_iff g g' arguments arguments' harguments]

theorem renameAll_eq_renameAll_iff (g g' : Token → Token) (ss ts : List TypeSig)
    (h : spellingAll name ss = spellingAll name' ts) :
    renameAll g ss = renameAll g' ts ↔
      (usesOf ss).map (TypeUse.rename g) = (usesOf ts).map (TypeUse.rename g') := by
  cases ss with
  | nil =>
    cases ts with
    | nil => exact iff_of_true rfl rfl
    | cons t ts => exact nomatch h
  | cons s ss =>
    cases ts with
    | nil => exact nomatch h
    | cons t ts =>
      obtain ⟨hfirst, hrest⟩ := List.cons.inj h
      rw [renameAll, renameAll, List.cons.injEq, usesOf, usesOf, List.map_append, List.map_append,
        append_eq_append_iff_of_length (length_map_uses hfirst g g'),
        rename_eq_rename_iff g g' s t hfirst, renameAll_eq_renameAll_iff g g' ss ts hrest]

end

end TypeSig

namespace MethodSig

/-- The uses of types in the result and then in the parameters. -/
def uses (s : MethodSig) : List TypeUse := s.result.uses ++ TypeSig.usesOf s.params

theorem rename_eq_rename_iff {name name' : Token → String} (g g' : Token → Token) {s t : MethodSig}
    (h : s.spelling name = t.spelling name') :
    s.rename g = t.rename g' ↔ s.uses.map (TypeUse.rename g) = t.uses.map (TypeUse.rename g') := by
  obtain ⟨hthis, hgeneric, hresult, hparams⟩ := MemberSpelling.method.inj h
  rw [uses, uses, List.map_append, List.map_append,
    append_eq_append_iff_of_length (TypeSig.length_map_uses hresult g g'),
    ← TypeSig.rename_eq_rename_iff g g' s.result t.result hresult,
    ← TypeSig.renameAll_eq_renameAll_iff g g' s.params t.params hparams, rename, rename, mk.injEq]
  constructor
  · rintro ⟨-, -, hboth⟩
    exact hboth
  · intro hboth
    exact ⟨hthis, hgeneric, hboth⟩

end MethodSig

namespace MemberSig

/-- The uses of types in the signature of a member. -/
def uses : MemberSig → List TypeUse
  | .field s => s.uses
  | .method s => s.uses

/-- Signatures whose texts show the same become the same if and only if their uses of types do. -/
theorem rename_eq_rename_iff {name name' : Token → String} (g g' : Token → Token) {s t : MemberSig}
    (h : s.spelling name = t.spelling name') :
    s.rename g = t.rename g' ↔ s.uses.map (TypeUse.rename g) = t.uses.map (TypeUse.rename g') := by
  cases s <;> cases t <;> try cases h
  case field.field s t =>
    rw [rename, rename, field.injEq]
    exact TypeSig.rename_eq_rename_iff g g' s t (MemberSpelling.field.inj h)
  case method.method s t =>
    rw [rename, rename, method.injEq]
    exact MethodSig.rename_eq_rename_iff g g' h

end MemberSig

end ModuleLinker
