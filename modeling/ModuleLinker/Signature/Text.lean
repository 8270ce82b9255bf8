import ModuleLinker.Signature.Basic

namespace ModuleLinker

/-! # Canonical text of signatures

Signatures of different modules are compared by their text, in which each token is replaced by
the name that it has in its module: `void(int32,N.T)`.
-/

namespace Primitive

/-- The name of a primitive type. -/
def text : Primitive → String
  | void => "void"
  | bool => "bool"
  | char => "char"
  | i1 => "int8"
  | u1 => "uint8"
  | i2 => "int16"
  | u2 => "uint16"
  | i4 => "int32"
  | u4 => "uint32"
  | i8 => "int64"
  | u8 => "uint64"
  | r4 => "float32"
  | r8 => "float64"
  | string => "string"
  | i => "native int"
  | u => "native uint"
  | object => "object"

end Primitive

namespace TypeSig

mutual

/-- The text of a type, `name` giving the text of a token. -/
def describe (name : Token → String) : TypeSig → String
  | .primitive p => p.text
  | .classType t => name t
  | .valueType t => name t
  | .array s => s.describe name ++ "[]"
  | .byRef s => s.describe name ++ "&"
  | .pointer s => s.describe name ++ "*"
  | .typeParam n => s!"!{n}"
  | .methodParam n => s!"!!{n}"
  | .instantiation base arguments =>
    base.describe name ++ "<" ++ ",".intercalate (describeAll name arguments) ++ ">"

/-- The texts of several types. -/
def describeAll (name : Token → String) : List TypeSig → List String
  | [] => []
  | s :: rest => s.describe name :: describeAll name rest

end

end TypeSig

/-- The text of a method signature; the number of generic parameters follows the result type. -/
def MethodSig.describe (name : Token → String) (s : MethodSig) : String :=
  let arity := if 0 < s.genericParams then s!"``{s.genericParams}" else ""
  s.result.describe name ++ arity ++ "(" ++ ",".intercalate (TypeSig.describeAll name s.params)
    ++ ")"

/-- The text of a member signature. -/
def MemberSig.describe (name : Token → String) : MemberSig → String
  | .field s => s.describe name
  | .method s => s.describe name

end ModuleLinker
