import ModuleLinker.Text.Split
import ModuleLinker.Token

namespace ModuleLinker

/-! # Custom attributes

An attribute is an application of an attribute type, named by token, to constructor arguments and
named ones. Tokens mean different things in different modules, so attributes of two modules are
compared by the name of their type and by their arguments.
-/

/-- An argument of an attribute. -/
inductive AttributeValue where
  | bool (value : Bool)
  | i32 (value : Int32)
  | i64 (value : Int64)
  /-- A text, or the null reference. -/
  | string (value : Option String)
  /-- A type, by its written name. -/
  | typeName (name : String)
deriving DecidableEq, Repr

/-- An argument for a field or a property of the attribute. -/
structure NamedArgument where
  isField : Bool
  name : String
  value : AttributeValue
deriving DecidableEq, Repr

/-- An application of an attribute type. -/
structure Attribute where
  type : Token
  fixed : List AttributeValue
  named : List NamedArgument
deriving DecidableEq, Repr

namespace Attribute

/-- The name of the attribute type that says how often an attribute type may be applied. -/
def usageType : String := "System.AttributeUsageAttribute"

/-- The named argument of `usageType` that permits several applications. -/
def allowMultipleName : String := "AllowMultiple"

/-- Whether the attribute, taken as a `usageType`, permits several applications. -/
def allowsMultiple (a : Attribute) : Bool :=
  a.named.any fun argument =>
    argument.name == allowMultipleName && argument.value == .bool true

/-- Whether two attributes have the same arguments. -/
def sameArguments (a b : Attribute) : Bool :=
  a.fixed == b.fixed && a.named == b.named

/-- The attribute with the token of its type replaced. -/
def mapTokens [Monad m] (f : Token → m Token) (a : Attribute) : m Attribute :=
  return { a with type := ← f a.type }

/-- The tokens of the types of several attributes. -/
def tokensOf (attributes : List Attribute) : List Token := attributes.map type

/-! ## Names in a drop list -/

/-- The part of a full name after the last point or slash. -/
def simpleName (fullName : String) : String :=
  String.ofList
    (fullName.toList.reverse.takeWhile fun c => c != '.' && c != '/').reverse

/-- A name without the ending that attribute types have by custom. -/
def shortName (name : String) : String :=
  (Text.before? "Attribute" name).getD name

/-- Whether an entry of a drop list names the type: in full or by its simple name, and with or
without the customary ending. -/
def nameMatches (fullName entry : String) : Bool :=
  let wanted := shortName (Text.trim entry)
  wanted == shortName fullName || wanted == shortName (simpleName fullName)

end Attribute

end ModuleLinker
