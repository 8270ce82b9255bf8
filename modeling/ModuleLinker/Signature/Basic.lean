import ModuleLinker.Token

namespace ModuleLinker

/-! # Signatures

The types of fields, locals, parameters and results. A signature refers to the types it names by
token. `tokens` lists these references in order, `mapTokens` replaces them one by one in the same
order.
-/

/-- A type that every module knows. -/
inductive Primitive where
  | void
  | bool
  | char
  | i1
  | u1
  | i2
  | u2
  | i4
  | u4
  | i8
  | u8
  | r4
  | r8
  | string
  | i
  | u
  | object
deriving DecidableEq, Repr, Inhabited

namespace Primitive

/-- Every primitive type. -/
def all : List Primitive :=
  [void, bool, char, i1, u1, i2, u2, i4, u4, i8, u8, r4, r8, string, i, u, object]

end Primitive

/-- A type in a signature. -/
inductive TypeSig where
  | primitive (type : Primitive)
  /-- A reference type, by its token. -/
  | classType (token : Token)
  /-- A value type, by its token. -/
  | valueType (token : Token)
  /-- An array of one dimension. -/
  | array (element : TypeSig)
  /-- A managed reference. -/
  | byRef (target : TypeSig)
  /-- A pointer. -/
  | pointer (target : TypeSig)
  /-- A generic parameter of the type. -/
  | typeParam (index : UInt32)
  /-- A generic parameter of the method. -/
  | methodParam (index : UInt32)
  /-- A generic type applied to arguments. -/
  | instantiation (base : TypeSig) (arguments : List TypeSig)
deriving Repr, Inhabited

namespace TypeSig

mutual

/-- Equality of type signatures is decided part by part. -/
def decEq (a b : TypeSig) : Decidable (a = b) :=
  match a with
  | .primitive p =>
    match b with
    | .primitive q => decidable_of_iff (p = q) (by simp)
    | .classType _ | .valueType _ | .array _ | .byRef _ | .pointer _ | .typeParam _
    | .methodParam _ | .instantiation .. => isFalse nofun
  | .classType t =>
    match b with
    | .classType u => decidable_of_iff (t = u) (by simp)
    | .primitive _ | .valueType _ | .array _ | .byRef _ | .pointer _ | .typeParam _
    | .methodParam _ | .instantiation .. => isFalse nofun
  | .valueType t =>
    match b with
    | .valueType u => decidable_of_iff (t = u) (by simp)
    | .primitive _ | .classType _ | .array _ | .byRef _ | .pointer _ | .typeParam _
    | .methodParam _ | .instantiation .. => isFalse nofun
  | .array s =>
    match b with
    | .array t => @decidable_of_iff _ (s = t) (by simp) (decEq s t)
    | .primitive _ | .classType _ | .valueType _ | .byRef _ | .pointer _ | .typeParam _
    | .methodParam _ | .instantiation .. => isFalse nofun
  | .byRef s =>
    match b with
    | .byRef t => @decidable_of_iff _ (s = t) (by simp) (decEq s t)
    | .primitive _ | .classType _ | .valueType _ | .array _ | .pointer _ | .typeParam _
    | .methodParam _ | .instantiation .. => isFalse nofun
  | .pointer s =>
    match b with
    | .pointer t => @decidable_of_iff _ (s = t) (by simp) (decEq s t)
    | .primitive _ | .classType _ | .valueType _ | .array _ | .byRef _ | .typeParam _
    | .methodParam _ | .instantiation .. => isFalse nofun
  | .typeParam m =>
    match b with
    | .typeParam n => decidable_of_iff (m = n) (by simp)
    | .primitive _ | .classType _ | .valueType _ | .array _ | .byRef _ | .pointer _
    | .methodParam _ | .instantiation .. => isFalse nofun
  | .methodParam m =>
    match b with
    | .methodParam n => decidable_of_iff (m = n) (by simp)
    | .primitive _ | .classType _ | .valueType _ | .array _ | .byRef _ | .pointer _
    | .typeParam _ | .instantiation .. => isFalse nofun
  | .instantiation s ss =>
    match b with
    | .instantiation t ts =>
      @decidable_of_iff _ (s = t ∧ ss = ts) (by simp)
        (@instDecidableAnd _ _ (decEq s t) (decEqAll ss ts))
    | .primitive _ | .classType _ | .valueType _ | .array _ | .byRef _ | .pointer _
    | .typeParam _ | .methodParam _ => isFalse nofun

/-- Equality of lists of type signatures is decided element by element. -/
def decEqAll (as bs : List TypeSig) : Decidable (as = bs) :=
  match as, bs with
  | [], [] => isTrue rfl
  | [], _ :: _ => isFalse nofun
  | _ :: _, [] => isFalse nofun
  | a :: as, b :: bs =>
    @decidable_of_iff _ (a = b ∧ as = bs) (by simp)
      (@instDecidableAnd _ _ (decEq a b) (decEqAll as bs))

end

instance : DecidableEq TypeSig := decEq

mutual

/-- The tokens of a type, from left to right. -/
def tokens : TypeSig → List Token
  | .primitive _ => []
  | .classType t => [t]
  | .valueType t => [t]
  | .array s => s.tokens
  | .byRef s => s.tokens
  | .pointer s => s.tokens
  | .typeParam _ => []
  | .methodParam _ => []
  | .instantiation base arguments => base.tokens ++ tokensOf arguments

/-- The tokens of several types, from left to right. -/
def tokensOf : List TypeSig → List Token
  | [] => []
  | s :: rest => s.tokens ++ tokensOf rest

end

mutual

/-- The type with each token replaced, from left to right. -/
def mapTokens [Monad m] (f : Token → m Token) : TypeSig → m TypeSig
  | .primitive p => return .primitive p
  | .classType t => return .classType (← f t)
  | .valueType t => return .valueType (← f t)
  | .array s => return .array (← s.mapTokens f)
  | .byRef s => return .byRef (← s.mapTokens f)
  | .pointer s => return .pointer (← s.mapTokens f)
  | .typeParam n => return .typeParam n
  | .methodParam n => return .methodParam n
  | .instantiation base arguments => do
    let base ← base.mapTokens f
    return .instantiation base (← mapTokensOf f arguments)

/-- The types with each token replaced, from left to right. -/
def mapTokensOf [Monad m] (f : Token → m Token) : List TypeSig → m (List TypeSig)
  | [] => return []
  | s :: rest => do
    let s ← s.mapTokens f
    return s :: (← mapTokensOf f rest)

end

/-- Whether the type is named by a token, as the base of an instantiation has to be. -/
def isNamed : TypeSig → Bool
  | .classType _ => true
  | .valueType _ => true
  | _ => false

end TypeSig

/-- The signature of a method. -/
structure MethodSig where
  /-- The method takes an instance beside its parameters. -/
  hasThis : Bool
  /-- The number of generic parameters. -/
  genericParams : UInt32
  result : TypeSig
  params : List TypeSig
deriving DecidableEq, Repr, Inhabited

namespace MethodSig

/-- The tokens of the result and then of the parameters. -/
def tokens (s : MethodSig) : List Token :=
  s.result.tokens ++ TypeSig.tokensOf s.params

/-- The signature with each token replaced, the result first. -/
def mapTokens [Monad m] (f : Token → m Token) (s : MethodSig) : m MethodSig := do
  let result ← s.result.mapTokens f
  return { s with result, params := ← TypeSig.mapTokensOf f s.params }

end MethodSig

/-- The signature that a reference to a member carries. -/
inductive MemberSig where
  | field (type : TypeSig)
  | method (signature : MethodSig)
deriving DecidableEq, Repr, Inhabited

namespace MemberSig

/-- The tokens of a member signature. -/
def tokens : MemberSig → List Token
  | .field s => s.tokens
  | .method s => s.tokens

/-- The member signature with each token replaced. -/
def mapTokens [Monad m] (f : Token → m Token) : MemberSig → m MemberSig
  | .field s => return .field (← s.mapTokens f)
  | .method s => return .method (← s.mapTokens f)

end MemberSig

end ModuleLinker
