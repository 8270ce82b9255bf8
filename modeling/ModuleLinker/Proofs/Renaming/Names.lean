import ModuleLinker.Proofs.Member

namespace ModuleLinker

/-! # Names and renaming

The key of a member shows the names of the types in its signature and not their tokens. Renaming keeps it
if the new tokens have the names of the old ones. Renaming every token to itself changes nothing.
-/

variable {g : Token → Token} {name name' : Token → String}

/-! ## Texts of signatures -/

namespace TypeSig

mutual

/-- A type whose tokens keep their names keeps its text. -/
theorem describe_rename (s : TypeSig) (h : ∀ t ∈ s.tokens, name' (g t) = name t) :
    (s.rename g).describe name' = s.describe name := by
  cases s with
  | primitive p => rfl
  | typeParam n => rfl
  | methodParam n => rfl
  | classType t => exact h t List.mem_cons_self
  | valueType t => exact h t List.mem_cons_self
  | array s => rw [rename, describe, describe, describe_rename s h]
  | byRef s => rw [rename, describe, describe, describe_rename s h]
  | pointer s => rw [rename, describe, describe, describe_rename s h]
  | instantiation base arguments =>
    obtain ⟨hbase, harguments⟩ := List.forall_mem_append.1 h
    rw [rename, describe, describe, describe_rename base hbase, describeAll_renameAll arguments harguments]

theorem describeAll_renameAll (ss : List TypeSig) (h : ∀ t ∈ tokensOf ss, name' (g t) = name t) :
    describeAll name' (renameAll g ss) = describeAll name ss := by
  cases ss with
  | nil => rfl
  | cons s ss =>
    obtain ⟨hs, hss⟩ := List.forall_mem_append.1 h
    rw [renameAll, describeAll, describeAll, describe_rename s hs, describeAll_renameAll ss hss]

end

end TypeSig

theorem MethodSig.describe_rename {s : MethodSig} (h : ∀ t ∈ s.tokens, name' (g t) = name t) :
    (s.rename g).describe name' = s.describe name := by
  obtain ⟨hresult, hparams⟩ := List.forall_mem_append.1 h
  rw [describe, describe, rename]
  dsimp only
  rw [TypeSig.describe_rename s.result hresult, TypeSig.describeAll_renameAll s.params hparams]

/-! ## Keys of members -/

namespace Member

/-- The tokens whose names the key of a member shows. -/
def keyTokens : Member → List Token
  | .field x => x.signature.tokens
  | .method x => x.signature.tokens
  | .property x => x.signature.tokens
  | .event x => [x.eventType]

variable {names names' : NameTable}

/-- A member whose types keep their names keeps its key. -/
theorem key_rename {x : Member} (h : ∀ t ∈ x.keyTokens, names'.name (g t) = names.name t) :
    (x.rename g).key names' = x.key names := by
  cases x with
  | field x => exact congrArg (MemberKey.field x.name) (TypeSig.describe_rename x.signature h)
  | method x => exact congrArg (MemberKey.method x.name x.signature.hasThis) (MethodSig.describe_rename h)
  | property x => exact congrArg (MemberKey.property x.name) (TypeSig.describe_rename x.signature h)
  | event x => exact congrArg (MemberKey.event x.name) (h x.eventType List.mem_cons_self)

end Member

theorem MemberRef.key_eq {names names' : NameTable} {r row : MemberRef} (hname : row.name = r.name)
    (hsignature : row.signature = r.signature.rename g)
    (h : ∀ t ∈ r.signature.tokens, names'.name (g t) = names.name t) : row.key names' = r.key names := by
  unfold key
  rw [hsignature, hname]
  rcases hsig : r.signature with s | s
  · rw [hsig] at h
    exact congrArg (MemberKey.field r.name) (TypeSig.describe_rename s h)
  · rw [hsig] at h
    exact congrArg (MemberKey.method r.name s.hasThis) (MethodSig.describe_rename h)

/-! ## Renaming to the same tokens -/

namespace TypeSig

mutual

theorem rename_id (s : TypeSig) : s.rename id = s := by
  cases s with
  | primitive p => rfl
  | classType t => rfl
  | valueType t => rfl
  | typeParam n => rfl
  | methodParam n => rfl
  | array s => rw [rename, rename_id s]
  | byRef s => rw [rename, rename_id s]
  | pointer s => rw [rename, rename_id s]
  | instantiation base arguments => rw [rename, rename_id base, renameAll_id arguments]

theorem renameAll_id (ss : List TypeSig) : renameAll id ss = ss := by
  cases ss with
  | nil => rfl
  | cons s ss => rw [renameAll, rename_id s, renameAll_id ss]

end

end TypeSig

theorem Attribute.rename_id (a : Attribute) : a.rename id = a := rfl

theorem MethodSig.rename_id (s : MethodSig) : s.rename id = s := by
  rw [rename, TypeSig.rename_id, TypeSig.renameAll_id]

theorem MemberSig.rename_id (s : MemberSig) : s.rename id = s := by
  cases s with
  | field s => rw [rename, TypeSig.rename_id]
  | method s => rw [rename, MethodSig.rename_id]

theorem Operand.rename_id (x : Operand) : x.rename id = x := by
  cases x <;> rfl

theorem Instruction.rename_id (i : Instruction) : i.rename id = i := by
  rw [rename, Operand.rename_id]

theorem Handler.rename_id (h : Handler) : h.rename id = h := by
  rw [rename, Option.map_id]
  rfl

theorem MethodBody.rename_id (b : MethodBody) : b.rename id = b := by
  rw [rename, TypeSig.renameAll_id, List.map_id'' Instruction.rename_id, List.map_id'' Handler.rename_id]

theorem Member.rename_id (x : Member) : x.rename id = x := by
  cases x with
  | field x =>
    rw [rename, Field.rename, TypeSig.rename_id, List.map_id'' Attribute.rename_id]
    rfl
  | method x =>
    have hbody : MethodBody.rename id = id := funext MethodBody.rename_id
    rw [rename, Method.rename, MethodSig.rename_id, List.map_id'' Attribute.rename_id, hbody, Option.map_id]
    rfl
  | property x =>
    rw [rename, Property.rename, TypeSig.rename_id, List.map_id'' Attribute.rename_id, Option.map_id]
    rfl
  | event x =>
    rw [rename, Event.rename, List.map_id'' Attribute.rename_id, Option.map_id]
    rfl

end ModuleLinker
