import ModuleLinker.Fault

namespace ModuleLinker

/-! # Handing out tokens

An allocator numbers the rows of each table from 1 on. A table whose rows are used up gives no
more tokens and keeps its count.
-/

/-- The number of rows handed out, for each table that has any. -/
structure Allocator where
  rows : List (UInt8 × UInt32)
deriving DecidableEq, Repr

namespace Allocator

/-- Nothing is handed out yet. -/
def empty : Allocator := ⟨[]⟩

/-- The number of rows handed out of a table. -/
def count (a : Allocator) (table : UInt8) : UInt32 :=
  (a.rows.lookup table).getD 0

/-- The allocator with the count of one table replaced. -/
def setCount (a : Allocator) (table : UInt8) (n : UInt32) : Allocator :=
  ⟨(table, n) :: a.rows.filter fun entry => entry.1 != table⟩

/-- The next token of a table, and the allocator without it; a full table changes nothing. -/
def next (table : UInt8) (a : Allocator) : Except Fault Token × Allocator :=
  let used := a.count table
  if Token.maxRow ≤ used then (.error (.unbound (.tableFull table)), a)
  else (.ok (.ofRow table (used + 1)), a.setCount table (used + 1))

end Allocator

/-- A computation that takes tokens from an allocator and may run out of them. -/
abbrev Allocating := ExceptT Fault (StateM Allocator)

namespace Allocating

/-- Takes the next token of a table. -/
def fresh (table : UInt8) : Allocating Token := fun a => a.next table

/-- Runs an allocation; the answer comes with the allocator after it. -/
def runFrom (x : Allocating α) (a : Allocator) : Except Fault α × Allocator :=
  StateT.run (ExceptT.run x) a

end Allocating

end ModuleLinker
