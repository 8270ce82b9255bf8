import ModuleLinker.Text.Numeral

namespace ModuleLinker

/-! # Metadata tokens

A token names one row of one metadata table of a module: the high byte is the table, the other
24 bits are the row, counted from 1. The null token 0 names nothing.
-/

/-- A reference to a row of a metadata table. -/
structure Token where
  value : UInt32
deriving DecidableEq, Repr, Inhabited

/-! ## Table numbers -/

namespace Table

/-- References to types of other modules. -/
def typeRef : UInt8 := 0x01

/-- Types. -/
def typeDef : UInt8 := 0x02

/-- Fields. -/
def field : UInt8 := 0x04

/-- Methods. -/
def method : UInt8 := 0x06

/-- References to members of other types. -/
def memberRef : UInt8 := 0x0A

/-- Events. -/
def event : UInt8 := 0x14

/-- Properties. -/
def property : UInt8 := 0x17

/-- The heap of string literals, which is no table of definitions. -/
def userString : UInt8 := 0x70

end Table

namespace Token

/-- The token that names nothing. -/
def null : Token := ⟨0⟩

/-- The largest row that a token can name. -/
def maxRow : UInt32 := 0x00FFFFFF

/-- The token of a row; bits of the row above the 24th are lost. -/
def ofRow (table : UInt8) (row : UInt32) : Token :=
  ⟨(table.toUInt32 <<< 24) ||| (row &&& maxRow)⟩

/-- The table of a token. -/
def table (t : Token) : UInt8 := (t.value >>> 24).toUInt8

/-- The row of a token. -/
def row (t : Token) : UInt32 := t.value &&& maxRow

/-- Whether the token names nothing. -/
def isNull (t : Token) : Bool := t.value == 0

/-- Whether the token names a row of a table of types. -/
def isType (t : Token) : Bool := t.table == Table.typeDef || t.table == Table.typeRef

/-- The token as eight hexadecimal digits. -/
def text (t : Token) : String :=
  "0x" ++ Numeral.hex 8 t.value.toNat

/-- The token with its table and row spelled out. -/
def inspect (t : Token) : String :=
  let table := Numeral.hex 2 t.table.toNat
  s!"Token({t.text}, table: 0x{table}, row: {t.row})"

instance : ToString Token := ⟨text⟩

end Token

end ModuleLinker
