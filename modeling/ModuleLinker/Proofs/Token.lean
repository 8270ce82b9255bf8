import Mathlib.Data.List.Nodup
import Mathlib.Data.Nat.Bitwise
import ModuleLinker.Proofs.Repetition
import ModuleLinker.Token.Allocator

namespace ModuleLinker

/-! # Tokens as numbers

A token is its table times `2 ^ 24` plus its row, so tables and rows can be reckoned with as natural
numbers. An allocator counts the rows of a table: it hands out the tokens of the rows in their order, none
of them twice, and refuses one only when all rows are used.
-/

/-- Where no bit is shared, the bits of a sum are those of its parts. -/
theorem shiftLeft_or_eq {a b i : Nat} (h : b < 2 ^ i) : a <<< i ||| b = a * 2 ^ i + b := by
  rw [← Nat.shiftLeft_add_eq_or_of_lt h, Nat.shiftLeft_eq]

namespace Token

theorem ext {s t : Token} (h : s.value.toNat = t.value.toNat) : s = t := by
  cases s
  cases t
  exact congrArg Token.mk (UInt32.toNat_inj.mp h)

theorem toNat_row (t : Token) : t.row.toNat = t.value.toNat % 2 ^ 24 := by
  have hmask : t.value.toNat &&& 2 ^ 24 - 1 = t.value.toNat % 2 ^ 24 :=
    Nat.and_two_pow_sub_one_eq_mod ..
  exact (UInt32.toNat_and ..).trans hmask

theorem toNat_table (t : Token) : t.table.toNat = t.value.toNat / 2 ^ 24 := by
  have ht := t.value.toNat_lt
  simp only [table, UInt32.toNat_toUInt8, UInt32.toNat_shiftRight, UInt32.reduceToNat,
    Nat.reduceMod, Nat.shiftRight_eq_div_pow]
  omega

theorem toNat_ofRow (table : UInt8) (row : UInt32) :
    (ofRow table row).value.toNat = table.toNat * 2 ^ 24 + row.toNat % 2 ^ 24 := by
  have hmask : row.toNat &&& 2 ^ 24 - 1 = row.toNat % 2 ^ 24 := Nat.and_two_pow_sub_one_eq_mod ..
  have hmax : maxRow.toNat = 2 ^ 24 - 1 := rfl
  have htable := table.toNat_lt
  simp only [ofRow, UInt32.toNat_or, UInt32.toNat_shiftLeft, UInt32.toNat_and, UInt8.toNat_toUInt32,
    UInt32.reduceToNat, Nat.reduceMod, hmax, hmask]
  rw [Nat.mod_eq_of_lt (by rw [Nat.shiftLeft_eq]; omega), shiftLeft_or_eq (by omega)]

theorem table_ofRow (table : UInt8) (row : UInt32) : (ofRow table row).table = table := by
  apply UInt8.toNat_inj.mp
  rw [toNat_table, toNat_ofRow]
  omega

/-- The table and the row make up the token. -/
theorem ofRow_table_row (t : Token) : ofRow t.table t.row = t := by
  apply ext
  rw [toNat_ofRow, toNat_table, toNat_row]
  omega

/-! ## Tokens in the order of their rows -/

/-- The tokens of the first rows of a table. -/
def firstRows (table : UInt8) (n : Nat) : List Token :=
  (List.range n).map fun i => .ofRow table (UInt32.ofNat (i + 1))

theorem firstRows_succ (table : UInt8) (n : Nat) :
    firstRows table (n + 1) = firstRows table n ++ [.ofRow table (UInt32.ofNat (n + 1))] := by
  rw [firstRows, List.range_succ, List.map_append]
  rfl

/-- The tokens are those of the first rows of a table, one after another. -/
structure InOrder (table : UInt8) (tokens : List Token) : Prop where
  room : tokens.length ≤ maxRow.toNat
  eq : tokens = firstRows table tokens.length

namespace InOrder

variable {table : UInt8} {before after : List Token}

/-- The first ones of tokens in order are in order. -/
theorem left (h : InOrder table (before ++ after)) : InOrder table before := by
  have hroom := h.room
  have heq := congrArg (List.take before.length) h.eq
  rw [List.length_append] at hroom
  rw [List.take_left, List.length_append, firstRows, ← List.map_take, List.take_range,
    Nat.min_eq_left (Nat.le_add_right _ _)] at heq
  exact ⟨by omega, heq⟩

/-- Behind the first rows the next one follows. -/
theorem last_eq {t : Token} (h : InOrder table (before ++ [t])) :
    t = .ofRow table (UInt32.ofNat (before.length + 1)) := by
  have heq := h.eq
  rw [List.length_append, List.length_singleton, firstRows_succ, ← h.left.eq] at heq
  exact List.singleton_inj.1 (List.append_cancel_left heq)

end InOrder

/-- Rows that a table has room for have different tokens. -/
theorem nodup_firstRows (table : UInt8) {n : Nat} (h : n ≤ maxRow.toNat) : (firstRows table n).Nodup := by
  have hmax : maxRow.toNat = 2 ^ 24 - 1 := rfl
  have hsize : UInt32.size = 2 ^ 32 := rfl
  refine List.Nodup.map_on (fun i hi j hj heq => ?_) List.nodup_range
  have hi := List.mem_range.1 hi
  have hj := List.mem_range.1 hj
  have hvalue : (ofRow table (UInt32.ofNat (i + 1))).value.toNat =
      (ofRow table (UInt32.ofNat (j + 1))).value.toNat := congrArg (fun t => t.value.toNat) heq
  rw [toNat_ofRow, toNat_ofRow, UInt32.toNat_ofNat_of_lt' (by omega), UInt32.toNat_ofNat_of_lt' (by omega)]
    at hvalue
  omega

namespace InOrder

variable {table : UInt8} {tokens : List Token}

theorem nodup (h : InOrder table tokens) : tokens.Nodup := by
  rw [h.eq]
  exact nodup_firstRows table h.room

theorem table_eq (h : InOrder table tokens) {t : Token} (ht : t ∈ tokens) : t.table = table := by
  rw [h.eq] at ht
  obtain ⟨i, -, rfl⟩ := List.mem_map.1 ht
  exact table_ofRow table _

end InOrder

/-- Tokens are different if those of each table are. -/
theorem nodup_of_inOrder {tokens : List Token}
    (h : ∀ table, InOrder table (tokens.filter (·.table == table))) : tokens.Nodup := by
  refine List.nodup_iff_count_le_one.2 fun t => ?_
  rw [← List.count_filter (p := (·.table == t.table)) (beq_self_eq_true _)]
  exact List.nodup_iff_count_le_one.1 (h t.table).nodup t

end Token

/-! ## Tokens that were handed out -/

namespace Allocator

variable {a a' : Allocator} {table other : UInt8} {tokens : List Token} {t : Token}

theorem count_setCount_self (a : Allocator) (table : UInt8) (n : UInt32) :
    (a.setCount table n).count table = n := by
  simp [setCount, count]

theorem count_setCount_of_ne (a : Allocator) (h : other ≠ table) (n : UInt32) :
    (a.setCount table n).count other = a.count other := by
  have hbeq : (other == table) = false := by simpa using h
  unfold setCount count
  rw [List.lookup_cons, hbeq, lookup_filter_ne h]

/-- Handing out a token counts one more row of its table. -/
theorem next_eq_ok (h : a.next table = (.ok t, a')) : a.count table < Token.maxRow ∧
    t = .ofRow table (a.count table + 1) ∧ a' = a.setCount table (a.count table + 1) := by
  unfold next at h
  dsimp only at h
  split at h
  · exact nomatch h
  · rename_i hroom
    obtain ⟨ht, ha⟩ := Prod.mk.inj h
    exact ⟨UInt32.not_le.1 hroom, (Except.ok.inj ht).symm, ha.symm⟩

/-- A token that is handed out lies in the table that it was asked of. -/
theorem table_of_next (h : a.next table = (.ok t, a')) : t.table = table := by
  rw [(next_eq_ok h).2.1, Token.table_ofRow]

theorem next_eq_error {fault : Fault} (h : a.next table = (.error fault, a')) :
    fault = .unbound (.tableFull table) ∧ Token.maxRow ≤ a.count table := by
  unfold next at h
  dsimp only at h
  split at h
  · rename_i hfull
    exact ⟨(Except.error.inj (Prod.mk.inj h).1).symm, hfull⟩
  · exact nomatch h

/-- The tokens are those that were handed out of a table: those of its first rows in order. -/
structure HandedOut (a : Allocator) (table : UInt8) (tokens : List Token) : Prop where
  count : (a.count table).toNat = tokens.length
  inOrder : Token.InOrder table tokens

namespace HandedOut

/-- No token is handed out twice. -/
theorem nodup (h : a.HandedOut table tokens) : tokens.Nodup := h.inOrder.nodup

/-- The next row is behind those that were handed out. -/
theorem count_add_one (h : a.HandedOut table tokens) (hroom : tokens.length < Token.maxRow.toNat) :
    a.count table + 1 = UInt32.ofNat (tokens.length + 1) := by
  have hmax : Token.maxRow.toNat = 2 ^ 24 - 1 := rfl
  have hsize : UInt32.size = 2 ^ 32 := rfl
  apply UInt32.toNat_inj.1
  rw [UInt32.toNat_add, UInt32.toNat_one, UInt32.toNat_ofNat_of_lt' (by omega), h.count]
  exact Nat.mod_eq_of_lt (by omega)

/-- The next token is none of those before it. -/
theorem next (h : a.HandedOut table tokens) (hnext : a.next table = (.ok t, a')) :
    a'.HandedOut table (tokens ++ [t]) := by
  obtain ⟨hroom, rfl, rfl⟩ := next_eq_ok hnext
  have hlt : (a.count table).toNat < Token.maxRow.toNat := hroom
  rw [h.count] at hlt
  have hrow := h.count_add_one hlt
  have hmax : Token.maxRow.toNat = 2 ^ 24 - 1 := rfl
  have hsize : UInt32.size = 2 ^ 32 := rfl
  refine ⟨?_, ?_, ?_⟩
  · rw [count_setCount_self, hrow, UInt32.toNat_ofNat_of_lt' (by omega), List.length_append,
      List.length_singleton]
  · rw [List.length_append, List.length_singleton]
    omega
  · rw [List.length_append, List.length_singleton, Token.firstRows_succ, ← h.inOrder.eq, hrow]

/-- Where there is room, the next token is that of the next row. -/
theorem exists_next (h : a.HandedOut table tokens) (hnext : Token.InOrder table (tokens ++ [t])) :
    ∃ a', a.next table = (.ok t, a') := by
  have hroom := hnext.room
  rw [List.length_append, List.length_singleton] at hroom
  have hfree : ¬ Token.maxRow ≤ a.count table := by
    intro hfull
    have hle : Token.maxRow.toNat ≤ (a.count table).toNat := hfull
    have hused := h.count
    omega
  refine ⟨a.setCount table (a.count table + 1), ?_⟩
  rw [hnext.last_eq, ← h.count_add_one hroom]
  exact if_neg hfree

/-- The tokens of one table do not matter to those of another one. -/
theorem next_other (h : a.HandedOut other tokens) (hne : other ≠ table)
    (hnext : a.next table = (.ok t, a')) : a'.HandedOut other tokens := by
  obtain ⟨-, -, rfl⟩ := next_eq_ok hnext
  exact ⟨(congrArg UInt32.toNat (count_setCount_of_ne a hne _)).trans h.count, h.inOrder⟩

/-- A token is refused only when all rows of the table are used. -/
theorem full (h : a.HandedOut table tokens) {fault : Fault} (hnext : a.next table = (.error fault, a')) :
    fault = .unbound (.tableFull table) ∧ Token.maxRow.toNat ≤ tokens.length := by
  obtain ⟨hfault, hfull⟩ := next_eq_error hnext
  exact ⟨hfault, h.count ▸ hfull⟩

end HandedOut

end Allocator

end ModuleLinker
