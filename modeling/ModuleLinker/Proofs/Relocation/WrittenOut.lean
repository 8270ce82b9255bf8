import ModuleLinker.Proofs.Computation
import ModuleLinker.Proofs.Relocation.Numbering

namespace ModuleLinker

/-! # Definitions of the output

Definitions are numbered before tokens are redirected and references are imported, and neither changes the
tokens of definitions that are kept. So the output has the tokens of the first rows of each table, in the
order of its definitions.
-/

/-! ## Rows for definitions

Numbering takes one row of a table for each definition that belongs to it, in the order of definitions,
and none of the tables of references. It stops only at a table that has too few rows.
-/

namespace Shape

theorem number_ends (table : UInt8) (t : SourceToken) (sub : Substitution) (a : Allocator) :
    Ends (sub, a) (number table t)
      (fun s _ => ∃ new a', a.next table = (.ok new, a') ∧ s = (sub.insert t new, a'))
      (fun fault => fault = .unbound (.tableFull table) ∧ Token.maxRow.toNat ≤ (a.count table).toNat) := by
  refine .get ?_
  dsimp only
  split
  case h_1 new a' hnext => exact .set ⟨new, a', hnext, rfl⟩
  case h_2 fault a' hnext =>
    obtain ⟨hfault, hfull⟩ := Allocator.next_eq_error hnext
    exact .throw ⟨hfault, hfull⟩

/-- The slots of a table have got the tokens of its first rows, in their order. -/
structure Allotted (slots : List (UInt8 × SourceToken)) (s : Substitution × Allocator) (table : UInt8)
    (tokens : List Token) : Prop where
  handedOut : s.2.HandedOut table tokens
  length : tokens.length = slots.countP (·.1 == table)
  inOrder : (slots.map Prod.snd).Nodup →
    ((slots.filter (·.1 == table)).map fun slot => s.1.get? slot.2) = tokens.map some

namespace Allotted

variable {slots : List (UInt8 × SourceToken)} {sub : Substitution} {a a' : Allocator} {table other : UInt8}
  {tokens : List Token} {t : SourceToken} {new : Token}

theorem empty (table : UInt8) : Allotted [] (.empty, .empty) table [] :=
  ⟨⟨rfl, Nat.zero_le _, rfl⟩, rfl, fun _ => rfl⟩

/-- Giving a counterpart to a token leaves those of other tokens. -/
theorem map_insert (hnodup : ((slots ++ [(table, t)]).map Prod.snd).Nodup) (other : UInt8) (new : Token) :
    ((slots.filter (·.1 == other)).map fun slot => (sub.insert t new).get? slot.2) =
      (slots.filter (·.1 == other)).map fun slot => sub.get? slot.2 := by
  refine List.map_congr_left fun slot hslot => Substitution.get?_insert_of_ne _ ?_ _
  rintro rfl
  rw [List.map_append, List.nodup_append] at hnodup
  exact hnodup.2.2 _ (List.mem_map_of_mem (List.mem_of_mem_filter hslot)) _ List.mem_cons_self rfl

/-- One more slot takes the next row of its table. -/
theorem next (h : Allotted slots (sub, a) table tokens) (hnext : a.next table = (.ok new, a'))
    (t : SourceToken) : Allotted (slots ++ [(table, t)]) (sub.insert t new, a') table (tokens ++ [new]) := by
  refine ⟨h.handedOut.next hnext, ?_, fun hnodup => ?_⟩
  · rw [List.length_append, h.length, List.countP_append, List.countP_singleton, beq_self_eq_true]
    rfl
  · have hbefore : (slots.map Prod.snd).Nodup := by
      rw [List.map_append] at hnodup
      exact hnodup.of_append_left
    have hlast : [(table, t)].filter (·.1 == table) = [(table, t)] := by simp
    rw [List.filter_append, hlast, List.map_append, List.map_append, map_insert hnodup, h.inOrder hbefore,
      List.map_singleton, List.map_singleton, Substitution.get?_insert_self]

/-- A slot of another table does not matter. -/
theorem next_other (h : Allotted slots (sub, a) other tokens) (hne : other ≠ table)
    (hnext : a.next table = (.ok new, a')) (t : SourceToken) :
    Allotted (slots ++ [(table, t)]) (sub.insert t new, a') other tokens := by
  have hbeq : (table == other) = false := beq_false_of_ne hne.symm
  refine ⟨h.handedOut.next_other hne hnext, ?_, fun hnodup => ?_⟩
  · rw [h.length, List.countP_append, List.countP_singleton, hbeq]
    rfl
  · have hbefore : (slots.map Prod.snd).Nodup := by
      rw [List.map_append] at hnodup
      exact hnodup.of_append_left
    have hlast : [(table, t)].filter (·.1 == other) = [] := by simp [hbeq]
    rw [List.filter_append, hlast, List.append_nil, map_insert hnodup, h.inOrder hbefore]

end Allotted

theorem numberAll_ends (slots : List (UInt8 × SourceToken)) :
    Ends (Substitution.empty, Allocator.empty) (numberAll slots)
      (fun s _ => ∀ table, ∃ tokens, Allotted slots s table tokens)
      (fun fault => ∃ table, fault = .unbound (.tableFull table) ∧
        Token.maxRow.toNat < slots.countP (·.1 == table)) := by
  refine .forM (motive := fun (done : List (UInt8 × SourceToken)) (s : Substitution × Allocator) =>
    ∀ table, ∃ tokens, Allotted done s table tokens) (fun table => ⟨[], .empty table⟩) ?_
  rintro done ⟨table, t⟩ rest hsplit ⟨sub, a⟩ hdone
  refine .imp (number_ends table t sub a) ?_ fun fault h => ?_
  · rintro - - ⟨new, a', hnext, rfl⟩ other
    obtain ⟨tokens, htokens⟩ := hdone other
    by_cases heq : other = table
    · subst heq
      exact ⟨_, htokens.next hnext t⟩
    · exact ⟨tokens, htokens.next_other heq hnext t⟩
  · obtain ⟨hfault, hfull⟩ := h
    obtain ⟨tokens, htokens⟩ := hdone table
    have hused : (a.count table).toNat = done.countP (·.1 == table) :=
      htokens.handedOut.count.trans htokens.length
    refine ⟨table, hfault, ?_⟩
    rw [← hsplit, List.countP_append, List.countP_cons, beq_self_eq_true, if_pos rfl]
    omega

/-- Slots of different tokens get the tokens of the first rows of each table, in their order. -/
theorem numberAll_inOrder {slots : List (UInt8 × SourceToken)} {sub : Substitution} {a : Allocator}
    (hnodup : (slots.map Prod.snd).Nodup)
    (h : (numberAll slots).run.run (.empty, .empty) = (.ok ⟨⟩, (sub, a))) (table : UInt8) :
    ∃ tokens, Token.InOrder table tokens ∧
      ((slots.filter (·.1 == table)).map fun slot => sub.get? slot.2) = tokens.map some := by
  obtain ⟨tokens, htokens⟩ := (numberAll_ends slots).of_run h table
  exact ⟨tokens, htokens.handedOut.inOrder, htokens.inOrder hnodup⟩

/-- The slots of shapes are in the tables of definitions. -/
theorem table_mem_of_mem_slots {shapes : List Shape} {table : UInt8} {t : SourceToken}
    (h : (table, t) ∈ (withinAll shapes).flatMap slots) : table ∈ Table.definitions := by
  obtain ⟨s, -, h⟩ := List.mem_flatMap.1 h
  rcases List.mem_cons.1 h with heq | hpart
  · rw [(Prod.mk.inj heq).1]
    exact List.mem_cons_self
  · obtain ⟨x, -, heq⟩ := List.mem_map.1 hpart
    rw [← (Prod.mk.inj heq).1]
    exact x.value.table_mem_definitions

/-- Nothing of the other tables is handed out. -/
theorem handedOut_nil {shapes : List Shape} {rs : List Redirect} {sub : Substitution} {a : Allocator}
    (h : substitution shapes rs = .ok (sub, a)) {table : UInt8} (htable : table ∉ Table.definitions) :
    a.HandedOut table [] := by
  obtain ⟨sub₀, hrun, -⟩ := substitution_eq_ok h
  obtain ⟨tokens, htokens⟩ := (numberAll_ends _).of_run hrun table
  have hzero : ((withinAll shapes).flatMap slots).countP (·.1 == table) = 0 := by
    refine List.countP_eq_zero.2 fun slot hslot heq => htable ?_
    exact beq_iff_eq.1 heq ▸ table_mem_of_mem_slots hslot
  obtain rfl := List.length_eq_zero_iff.1 (htokens.length.trans hzero)
  exact htokens.handedOut

end Shape

namespace Shape

variable {shapes : List Shape} {rs : List Redirect} {sub₀ sub : Substitution} {a : Allocator}

/-- What is kept has its own slot. -/
theorem Accounted.slots_eq (h : Accounted shapes rs) :
    (withinAll shapes).flatMap slots = (keysOf shapes).map fun k => (k.token.table, k) := by
  have hself : ∀ slot ∈ (withinAll shapes).flatMap slots, slot = (slot.2.token.table, slot.2) :=
    fun slot hslot => Prod.ext (mem_slots h hslot) rfl
  rw [← map_slots, List.map_map]
  exact (List.map_id _).symm.trans (List.map_congr_left hself)

/-- Definitions that are kept have the tokens of the first rows of their table, one after another. -/
theorem Accounted.inOrder (h : Accounted shapes rs) (hsub : substitution shapes rs = .ok (sub, a))
    (table : UInt8) : ∃ tokens, Token.InOrder table tokens ∧
      ((keysOf shapes).filter (·.token.table == table)).map sub.get? = tokens.map some := by
  obtain ⟨sub₀, hnumbers, hredirects⟩ := substitution_eq_ok hsub
  have hnodup : (((withinAll shapes).flatMap slots).map Prod.snd).Nodup := by
    rw [map_slots]
    exact h.nodup.of_append_left
  obtain ⟨tokens, htokens, hget⟩ := numberAll_inOrder hnodup hnumbers table
  refine ⟨tokens, htokens, ?_⟩
  rw [← hget, h.slots_eq, List.filter_map, List.map_map]
  refine List.map_congr_left fun k hk => ?_
  exact h.get?_kept hredirects (List.mem_of_mem_filter hk)

end Shape

namespace Relocation

open Shape

/-- The types of the output are those of shapes that account for all definitions: their tokens were handed
out, and the counterparts that this gave have stayed. -/
structure WrittenOut (l : Linkage) (shapes : List Shape) (rs : List Redirect) (sub final : Substitution)
    (a : Allocator) (out : Module) : Prop where
  accounted : Accounted shapes rs
  numbered : substitution shapes rs = .ok (sub, a)
  kept : ∀ k new, sub.get? k = some new → final.get? k = some new
  types : out.allTypes = (withinAll shapes).map (image l final)

namespace WrittenOut

variable {l : Linkage} {shapes : List Shape} {rs : List Redirect} {sub final : Substitution} {a : Allocator}
  {out : Module}

/-- A definition that is kept has the token that was handed out for it, which is of its table. -/
theorem get?_eq (h : WrittenOut l shapes rs sub final a out) {k : SourceToken} (hk : k ∈ keysOf shapes) :
    sub.get? k = some (final.counterpart k.source k.token) ∧
      (final.counterpart k.source k.token).table = k.token.table := by
  obtain ⟨new, hnew, htable⟩ := (substitution_ok h.accounted h.numbered).kept k hk
  have hshared := Substitution.not_isShared (table_mem_definitions h.accounted hk)
  rw [Substitution.counterpart_of_get? hshared (h.kept k new hnew)]
  exact ⟨hnew, htable⟩

/-- The definitions of the output are those that are kept. -/
theorem definedTokens_eq (h : WrittenOut l shapes rs sub final a out) :
    out.allTypes.flatMap TypeDef.definedTokens =
      (keysOf shapes).map fun k => final.counterpart k.source k.token := by
  rw [h.types, List.flatMap_map, keysOf, List.map_flatMap]
  exact List.flatMap_congr fun s _ => definedTokens_image _ _ s

/-- The definitions of the output have the tokens of the first rows of their tables. -/
theorem inOrder (h : WrittenOut l shapes rs sub final a out) (table : UInt8) : Token.InOrder table
    ((out.allTypes.flatMap TypeDef.definedTokens).filter (·.table == table)) := by
  obtain ⟨tokens, htokens, hget⟩ := h.accounted.inOrder h.numbered table
  have hfilter : (keysOf shapes).filter (fun k => (final.counterpart k.source k.token).table == table) =
      (keysOf shapes).filter (·.token.table == table) :=
    List.filter_congr fun k hk => by rw [(h.get?_eq hk).2]
  have hsome : ((keysOf shapes).filter (·.token.table == table)).map
      (some ∘ fun k => final.counterpart k.source k.token) = tokens.map some := by
    rw [← hget]
    exact List.map_congr_left fun k hk => (h.get?_eq (List.mem_of_mem_filter hk)).1.symm
  rw [← List.map_map] at hsome
  rw [h.definedTokens_eq, List.filter_map, Function.comp_def, hfilter,
    List.map_injective_iff.2 (Option.some_injective _) hsome]
  exact htokens

theorem table_mem_definitions (h : WrittenOut l shapes rs sub final a out) {t : Token}
    (ht : t ∈ out.allTypes.flatMap TypeDef.definedTokens) : t.table ∈ Table.definitions := by
  rw [h.definedTokens_eq] at ht
  obtain ⟨k, hk, rfl⟩ := List.mem_map.1 ht
  rw [(h.get?_eq hk).2]
  exact Shape.table_mem_definitions h.accounted hk

theorem table_type (h : WrittenOut l shapes rs sub final a out) :
    ∀ t ∈ out.allTypes, t.token.table = Table.typeDef := by
  rw [h.types, List.forall_mem_map]
  intro s hs
  have hkey : s.key ∈ keysOf shapes := List.mem_flatMap.2 ⟨s, hs, List.mem_cons_self⟩
  rw [token_image]
  exact (h.get?_eq hkey).2.trans (h.accounted.types s hs)

theorem table_member (h : WrittenOut l shapes rs sub final a out) :
    ∀ t ∈ out.allTypes, ∀ x ∈ t.members, x.token.table = x.table := by
  rw [h.types, List.forall_mem_map]
  intro s hs x hx
  rw [members_image] at hx
  obtain ⟨y, hy, rfl⟩ := List.mem_map.1 hx
  have hkey : partKey y ∈ keysOf shapes :=
    List.mem_flatMap.2 ⟨s, hs, List.mem_cons_of_mem _ (List.mem_map_of_mem hy)⟩
  rw [memberImage, Member.token_rename, Member.token_withAttributes, Member.table_rename,
    Member.table_withAttributes]
  exact (h.get?_eq hkey).2.trans (h.accounted.parts s hs y hy)

/-- With rows that are in order too, tokens of the output are distinct and in their tables. -/
theorem wellNumbered (h : WrittenOut l shapes rs sub final a out)
    (htypeRefs : Token.InOrder Table.typeRef (out.typeRefs.map TypeRef.token))
    (hmemberRefs : Token.InOrder Table.memberRef (out.memberRefs.map MemberRef.token)) :
    out.WellNumbered := by
  refine ⟨?_, h.table_type, h.table_member, fun r hr => htypeRefs.table_eq (List.mem_map_of_mem hr),
    fun r hr => hmemberRefs.table_eq (List.mem_map_of_mem hr)⟩
  rw [Module.definedTokens_eq, List.append_assoc, List.nodup_append]
  refine ⟨Token.nodup_of_inOrder h.inOrder, ?_, ?_⟩
  · refine List.nodup_append.2 ⟨htypeRefs.nodup, hmemberRefs.nodup, fun t ht u hu heq => ?_⟩
    have htable := htypeRefs.table_eq ht
    rw [heq, hmemberRefs.table_eq hu] at htable
    exact absurd htable (by decide)
  · rintro t ht _ hu rfl
    have htable := h.table_mem_definitions ht
    rcases List.mem_append.1 hu with hmem | hmem
    · rw [htypeRefs.table_eq hmem] at htable
      exact absurd htable (by decide)
    · rw [hmemberRefs.table_eq hmem] at htable
      exact absurd htable (by decide)

end WrittenOut

end Relocation

end ModuleLinker
