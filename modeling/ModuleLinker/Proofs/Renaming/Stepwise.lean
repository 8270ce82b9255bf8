import ModuleLinker.Definition
import ModuleLinker.Proofs.Computation
import ModuleLinker.Proofs.Renaming.Signature

namespace ModuleLinker

/-! # Replacing tokens step by step

What is known of the replacement of every single token is known of replacing all tokens of a
definition, as long as it goes along with the steps of a computation.
-/

variable {m : Type → Type} [Monad m] {T : (α : Type) → m α → Prop} {f : Token → m Token}

/-! ## Signatures -/

mutual

theorem TypeSig.mapTokens_stepwise (h : Stepwise T) (hf : ∀ t, T Token (f t)) (s : TypeSig) :
    T TypeSig (s.mapTokens f) := by
  cases s with
  | primitive p => exact h.pure _
  | classType t => exact h.bind (hf t) fun _ => h.pure _
  | valueType t => exact h.bind (hf t) fun _ => h.pure _
  | array s => exact h.bind (mapTokens_stepwise h hf s) fun _ => h.pure _
  | byRef s => exact h.bind (mapTokens_stepwise h hf s) fun _ => h.pure _
  | pointer s => exact h.bind (mapTokens_stepwise h hf s) fun _ => h.pure _
  | typeParam n => exact h.pure _
  | methodParam n => exact h.pure _
  | instantiation base arguments =>
    exact h.bind (mapTokens_stepwise h hf base) fun _ =>
      h.bind (mapTokensOf_stepwise h hf arguments) fun _ => h.pure _

theorem TypeSig.mapTokensOf_stepwise (h : Stepwise T) (hf : ∀ t, T Token (f t)) (ss : List TypeSig) :
    T (List TypeSig) (TypeSig.mapTokensOf f ss) := by
  cases ss with
  | nil => exact h.pure _
  | cons s rest =>
    exact h.bind (mapTokens_stepwise h hf s) fun _ =>
      h.bind (mapTokensOf_stepwise h hf rest) fun _ => h.pure _

end

section

variable (h : Stepwise T) (hf : ∀ t, T Token (f t))

include h hf

theorem MethodSig.mapTokens_stepwise (s : MethodSig) : T MethodSig (s.mapTokens f) :=
  h.bind (s.result.mapTokens_stepwise h hf) fun _ =>
    h.bind (TypeSig.mapTokensOf_stepwise h hf s.params) fun _ => h.pure _

theorem MemberSig.mapTokens_stepwise (s : MemberSig) : T MemberSig (s.mapTokens f) := by
  cases s with
  | field s => exact h.bind (s.mapTokens_stepwise h hf) fun _ => h.pure _
  | method s => exact h.bind (s.mapTokens_stepwise h hf) fun _ => h.pure _

/-! ## Bodies -/

theorem Operand.mapTokens_stepwise (o : Operand) : T Operand (o.mapTokens f) := by
  unfold mapTokens
  split
  case h_1 => exact h.bind (hf _) fun _ => h.pure _
  case h_2 => exact h.pure _

theorem Instruction.mapTokens_stepwise (i : Instruction) : T Instruction (i.mapTokens f) :=
  h.bind (i.operand.mapTokens_stepwise h hf) fun _ => h.pure _

theorem Handler.mapTokens_stepwise (x : Handler) : T Handler (x.mapTokens f) := by
  unfold mapTokens
  split
  case h_1 => exact h.pure _
  case h_2 => exact h.bind (hf _) fun _ => h.pure _

theorem MethodBody.mapTokens_stepwise [LawfulMonad m] (b : MethodBody) : T MethodBody (b.mapTokens f) :=
  h.bind (TypeSig.mapTokensOf_stepwise h hf b.locals) fun _ =>
    h.bind (h.mapM (fun i => i.mapTokens_stepwise h hf) b.code) fun _ =>
      h.bind (h.mapM (fun x => x.mapTokens_stepwise h hf) b.handlers) fun _ => h.pure _

/-! ## Members -/

theorem Attribute.mapTokens_stepwise (a : Attribute) : T Attribute (a.mapTokens f) :=
  h.bind (hf a.type) fun _ => h.pure _

theorem Field.mapTokens_stepwise [LawfulMonad m] (x : Field) : T Field (x.mapTokens f) :=
  h.bind (hf x.token) fun _ =>
    h.bind (x.signature.mapTokens_stepwise h hf) fun _ =>
      h.bind (h.mapM (fun a => a.mapTokens_stepwise h hf) x.attributes) fun _ => h.pure _

theorem Method.mapTokens_stepwise [LawfulMonad m] (x : Method) : T Method (x.mapTokens f) :=
  h.bind (hf x.token) fun _ =>
    h.bind (x.signature.mapTokens_stepwise h hf) fun _ =>
      h.bind (h.optionMapM (fun b => b.mapTokens_stepwise h hf) x.body) fun _ =>
        h.bind (h.mapM (fun a => a.mapTokens_stepwise h hf) x.attributes) fun _ => h.pure _

theorem Property.mapTokens_stepwise [LawfulMonad m] (x : Property) : T Property (x.mapTokens f) :=
  h.bind (hf x.token) fun _ =>
    h.bind (x.signature.mapTokens_stepwise h hf) fun _ =>
      h.bind (h.optionMapM hf x.getter) fun _ => h.bind (h.optionMapM hf x.setter) fun _ =>
        h.bind (h.mapM (fun a => a.mapTokens_stepwise h hf) x.attributes) fun _ => h.pure _

theorem Event.mapTokens_stepwise [LawfulMonad m] (x : Event) : T Event (x.mapTokens f) :=
  h.bind (hf x.token) fun _ =>
    h.bind (hf x.eventType) fun _ =>
      h.bind (h.optionMapM hf x.add) fun _ => h.bind (h.optionMapM hf x.remove) fun _ =>
        h.bind (h.mapM (fun a => a.mapTokens_stepwise h hf) x.attributes) fun _ => h.pure _

end

/-! ## Signatures and a state -/

section

variable {g : Token → ExceptT ε (StateM σ) Token} {holds : σ → Prop} {fails : ε → Prop}

namespace TypeSig

mutual

/-- What replacing a token keeps is kept where all tokens of a type are replaced, and the type that this
gives differs in tokens alone. -/
theorem mapTokens_holds (hg : ∀ t s, holds s → Ends s (g t) (fun s' _ => holds s') fails) (sig : TypeSig)
    {s : σ} (hs : holds s) : Ends s (sig.mapTokens g)
      (fun s' sig' => holds s' ∧ sig'.rename (fun _ => .null) = sig.rename fun _ => .null) fails := by
  cases sig with
  | primitive | typeParam | methodParam => exact .pure ⟨hs, rfl⟩
  | classType t | valueType t => exact (hg t s hs).bind fun _ _ h => .pure ⟨h, rfl⟩
  | array sig | byRef sig | pointer sig =>
    refine (mapTokens_holds hg sig hs).bind fun _ _ h => .pure ⟨h.1, ?_⟩
    rw [rename, rename, h.2]
  | instantiation base arguments =>
    refine (mapTokens_holds hg base hs).bind fun _ _ h => ?_
    refine (mapTokensOf_holds hg arguments h.1).bind fun _ _ h' => .pure ⟨h'.1, ?_⟩
    rw [rename, rename, h.2, h'.2]

theorem mapTokensOf_holds (hg : ∀ t s, holds s → Ends s (g t) (fun s' _ => holds s') fails)
    (sigs : List TypeSig) {s : σ} (hs : holds s) : Ends s (mapTokensOf g sigs)
      (fun s' sigs' => holds s' ∧ renameAll (fun _ => .null) sigs' = renameAll (fun _ => .null) sigs)
      fails := by
  cases sigs with
  | nil => exact .pure ⟨hs, rfl⟩
  | cons sig sigs =>
    refine (mapTokens_holds hg sig hs).bind fun _ _ h => ?_
    refine (mapTokensOf_holds hg sigs h.1).bind fun _ _ h' => .pure ⟨h'.1, ?_⟩
    rw [renameAll, renameAll, h.2, h'.2]

end

end TypeSig

theorem MemberSig.mapTokens_holds (hg : ∀ t s, holds s → Ends s (g t) (fun s' _ => holds s') fails)
    (sig : MemberSig) {s : σ} (hs : holds s) : Ends s (sig.mapTokens g)
      (fun s' sig' => holds s' ∧ sig'.rename (fun _ => .null) = sig.rename fun _ => .null) fails := by
  cases sig with
  | field sig =>
    refine (TypeSig.mapTokens_holds hg sig hs).bind fun _ _ h => .pure ⟨h.1, ?_⟩
    rw [rename, rename, h.2]
  | method sig =>
    have hsig : Ends s (sig.mapTokens g)
        (fun s' sig' => holds s' ∧ sig'.rename (fun _ => .null) = sig.rename fun _ => .null) fails := by
      refine (TypeSig.mapTokens_holds hg sig.result hs).bind fun _ _ h => ?_
      refine (TypeSig.mapTokensOf_holds hg sig.params h.1).bind fun _ _ h' => .pure ⟨h'.1, ?_⟩
      rw [MethodSig.rename, MethodSig.rename, h.2, h'.2]
    refine hsig.bind fun _ _ h => .pure ⟨h.1, ?_⟩
    rw [rename, rename, h.2]

end

end ModuleLinker
