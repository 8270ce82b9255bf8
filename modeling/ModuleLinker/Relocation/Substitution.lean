import ModuleLinker.Fault

namespace ModuleLinker

/-! # Substitutions

A token means something else in every module. A substitution gives tokens of the inputs their
counterparts in the output. Null tokens and string literals stand for themselves.
-/

/-- A token with the number of the module that it belongs to. -/
structure SourceToken where
  source : Nat
  token : Token
deriving DecidableEq, Repr

/-- The counterparts of tokens; every token has one at most. -/
structure Substitution where
  entries : List (SourceToken × Token)
deriving DecidableEq, Repr

namespace Substitution

/-- No token has a counterpart. -/
def empty : Substitution := ⟨[]⟩

/-- The counterpart of a token. -/
def get? (s : Substitution) (t : SourceToken) : Option Token := s.entries.lookup t

/-- The substitution with a counterpart set. -/
def insert (s : Substitution) (t : SourceToken) (new : Token) : Substitution :=
  ⟨(t, new) :: s.entries.filter fun entry => entry.1 != t⟩

/-- The number of tokens with counterparts. -/
def size (s : Substitution) : Nat := s.entries.length

/-- Whether a token is the same in all modules. -/
def isShared (t : Token) : Bool := t.isNull || t.table == Table.userString

/-- The counterpart that a token needs to have. -/
def resolve (s : Substitution) (source : Nat) (t : Token) : Except Fault Token :=
  if isShared t then .ok t
  else
    match s.get? ⟨source, t⟩ with
    | some new => .ok new
    | none => .error (.unbound (.substitution t source))

end Substitution

end ModuleLinker
