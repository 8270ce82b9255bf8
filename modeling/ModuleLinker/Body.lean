import ModuleLinker.Signature.Basic

namespace ModuleLinker

/-! # Method bodies

Instructions with their operands, local variables and exception handlers. Offsets and branch
targets count bytes of code; replacing tokens moves no instruction, so they stay as they are.
-/

/-- What an instruction works on. -/
inductive Operand where
  | none
  | i32 (value : Int32)
  | i64 (value : Int64)
  /-- A floating point number, by its bits. -/
  | f64 (bits : UInt64)
  | string (value : String)
  | token (token : Token)
  /-- The offset of an instruction. -/
  | branch (target : UInt32)
  /-- The offsets of several instructions. -/
  | switch (targets : List UInt32)
deriving DecidableEq, Repr

namespace Operand

/-- The token of an operand, if it is one. -/
def token? : Operand → Option Token
  | .token t => some t
  | _ => Option.none

/-- The operand with its token replaced. -/
def mapTokens [Monad m] (f : Token → m Token) : Operand → m Operand
  | .token t => return .token (← f t)
  | other => return other

/-- The number of bytes that an operand takes in the code. -/
def width : Operand → UInt32
  | .none => 0
  | .i64 _ => 8
  | .f64 _ => 8
  | .switch targets => 4 + 4 * UInt32.ofNat targets.length
  | _ => 4

end Operand

/-- An instruction at its place in the code. -/
structure Instruction where
  offset : UInt32
  opcode : UInt16
  operand : Operand
deriving DecidableEq, Repr

namespace Instruction

/-- The instruction with the token of its operand replaced. -/
def mapTokens [Monad m] (f : Token → m Token) (i : Instruction) : m Instruction :=
  return { i with operand := ← i.operand.mapTokens f }

/-- Instructions one after another from `offset` on; large opcodes take two bytes. -/
def sequence (offset : UInt32) : List (UInt16 × Operand) → List Instruction
  | [] => []
  | (opcode, operand) :: rest =>
    let width := (if 0xFF < opcode then 2 else 1) + operand.width
    ⟨offset, opcode, operand⟩ :: sequence (offset + width) rest

end Instruction

/-- The kinds of exception handlers. -/
inductive HandlerKind where
  | catch
  | filter
  | finally
  | fault
deriving DecidableEq, Repr, Inhabited

/-- An exception handler and the code that it protects. -/
structure Handler where
  kind : HandlerKind
  tryOffset : UInt32
  tryLength : UInt32
  handlerOffset : UInt32
  handlerLength : UInt32
  /-- The type of exception that is caught. -/
  catchType : Option Token
  filterOffset : UInt32
deriving DecidableEq, Repr

namespace Handler

/-- The handler with the token of the caught type replaced. -/
def mapTokens [Monad m] (f : Token → m Token) (h : Handler) : m Handler := do
  match h.catchType with
  | none => return h
  | some t => return { h with catchType := some (← f t) }

end Handler

/-- The place in a source text that the code at an offset comes from. -/
structure SequencePoint where
  offset : UInt32
  document : String
  startLine : UInt32
  startColumn : UInt16
  endLine : UInt32
  endColumn : UInt16
deriving DecidableEq, Repr

/-- The body of a method. -/
structure MethodBody where
  maxStack : UInt16
  initLocals : Bool
  locals : List TypeSig
  code : List Instruction
  handlers : List Handler
  /-- Where the code comes from; empty when that is not known. -/
  points : List SequencePoint
deriving DecidableEq, Repr

namespace MethodBody

/-- A body of instructions alone. -/
def ofCode (code : List (UInt16 × Operand)) : MethodBody :=
  ⟨8, true, [], Instruction.sequence 0 code, [], []⟩

/-- The tokens of the locals, of the operands and of the caught types. -/
def tokens (b : MethodBody) : List Token :=
  TypeSig.tokensOf b.locals ++ b.code.filterMap (·.operand.token?) ++
    b.handlers.filterMap (·.catchType)

/-- The body with each token replaced, in the order of `tokens`. -/
def mapTokens [Monad m] (f : Token → m Token) (b : MethodBody) : m MethodBody := do
  let locals ← TypeSig.mapTokensOf f b.locals
  let code ← b.code.mapM (Instruction.mapTokens f)
  let handlers ← b.handlers.mapM (Handler.mapTokens f)
  return { b with locals, code, handlers }

/-- The body without places in source texts. -/
def withoutPoints (b : MethodBody) : MethodBody := { b with points := [] }

end MethodBody

end ModuleLinker
