import ModuleLinker.Definition
import ModuleLinker.Text.CharClass
import Std.Data.HashSet

namespace ModuleLinker

/-! # Fresh names of types

A type whose name is taken is called after its module: `T` of `My-Lib` becomes `T_My_Lib`, and with
a number behind it if that name is taken too. The arity of a generic type, which starts with a
grave accent, stays at the end.
-/

/-- The qualified names that are taken. -/
structure FreshNames where
  taken : Std.HashSet String

namespace FreshNames

/-- The names of a list are taken. -/
def of (names : List String) : FreshNames := ⟨.ofList names⟩

/-- The character before the arity of a generic type. -/
def arityMark : Char := Char.ofNat 0x60

/-- A module's name as a part of an identifier. -/
def identifierOf (moduleName : String) : String :=
  moduleName.map fun c => if Text.isAlphanumeric c || c == '_' then c else '_'

/-- The names to try, by their numbers from 1 on; the first one has no number. -/
def candidate (name moduleName : String) : (n : Nat) → String :=
  -- the arity, if there is one, is what starts with the mark
  let (base, arity) := name.toList.span (· != arityMark)
  let stem := String.ofList base ++ "_" ++ identifierOf moduleName
  let arity := String.ofList arity
  fun n => stem ++ (if n ≤ 1 then "" else toString n) ++ arity

/-- Whether a name is not taken. -/
def isFree (names : FreshNames) (namespaceName name : String) : Bool :=
  !names.taken.contains (qualifiedName namespaceName name)

/-- A name that is not taken for a type of a module, which takes it. Different numbers give
different names, so one of one more than the taken names is free. -/
def rename (names : FreshNames) (namespaceName name moduleName : String) : String × FreshNames :=
  let candidate := candidate name moduleName
  let numbers := List.range' 1 (names.taken.size + 1)
  let n := (numbers.find? fun n => names.isFree namespaceName (candidate n)).getD 1
  let new := candidate n
  (new, ⟨names.taken.insert (qualifiedName namespaceName new)⟩)

end FreshNames

end ModuleLinker
