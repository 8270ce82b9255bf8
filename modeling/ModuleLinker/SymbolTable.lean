import ModuleLinker.ModuleSet
import Std.Data.HashMap

namespace ModuleLinker

/-! # Symbol tables

The qualified names of all inputs, each with the types that claim it. A name that several types
claim is a collision. Beside them stand the resources and attributes of the inputs, by name.
-/

/-- A qualified name and the top-level types that claim it, the first one in the order of modules
and declarations apart. -/
structure Symbol where
  name : String
  first : Declaration
  others : List Declaration
deriving Repr

namespace Symbol

/-- The types that claim the name. -/
def contributors (s : Symbol) : List Declaration := s.first :: s.others

/-- Whether several types claim the name. -/
def isCollision (s : Symbol) : Bool := !s.others.isEmpty

/-- The symbols with one more type, which claims its name behind those before it. -/
def claim (d : Declaration) : List Symbol → List Symbol
  | [] => [⟨d.name, d, []⟩]
  | s :: rest =>
    if s.name = d.name then { s with others := s.others ++ [d] } :: rest else s :: claim d rest

/-- The symbols of types in order. -/
def ofDeclarations (declarations : List Declaration) : List Symbol :=
  declarations.foldl (fun symbols d => claim d symbols) []

end Symbol

/-- The names of the inputs. -/
structure SymbolTable where
  /-- The symbols in the order of their first types. -/
  symbols : List Symbol
  /-- The names of resources and where they are. -/
  resources : List (String × Origin)
  /-- The names of the types of module attributes and where they are applied. -/
  attributes : List (String × Origin)
deriving Repr

namespace SymbolTable

/-- Entries of every module by name. -/
def entries (s : ModuleSet) (names : Module → List String) : List (String × Origin) :=
  s.inputs.zipIdx.flatMap fun (m, i) => (names m).zipIdx.map fun (name, j) => (name, ⟨i, j⟩)

/-- The table of a set of modules. -/
def ofSet (s : ModuleSet) : SymbolTable where
  symbols := Symbol.ofDeclarations s.declarations
  resources := entries s fun m => m.resources.map Resource.name
  attributes := entries s fun m => m.attributes.map fun a => m.typeNameOrToken a.type

/-- The symbol with a name. -/
def find? (t : SymbolTable) (name : String) : Option Symbol := t.symbols.find? (·.name == name)

/-- The symbol that a type contributes to. -/
def symbolOf? (t : SymbolTable) (origin : Origin) : Option Symbol :=
  t.symbols.find? fun s => s.contributors.any (·.origin == origin)

/-! ## Symbols by number

What a table is asked for is found by a search of the symbols, or by the number of a symbol, under which it
is known by its name and by the places of its types.
-/

/-- The symbol with a number, which is its place in the table. -/
def get? (t : SymbolTable) (number : UInt32) : Option Symbol := t.symbols[number.toNat]?

/-- The numbers of the symbols, each under all keys of its symbol. Numbers have 32 bits. -/
def numbered (t : SymbolTable) (keys : Symbol → List κ) : List (κ × UInt32) :=
  t.symbols.zipIdx.flatMap fun (s, i) => (keys s).map fun key => (key, .ofNat i)

/-- The numbers of the symbols by their names. -/
def byName (t : SymbolTable) : Std.HashMap String UInt32 := .ofList (t.numbered fun s => [s.name])

/-- The numbers of the symbols by the places of the types that contribute to them. -/
def byOrigin (t : SymbolTable) : Std.HashMap Origin UInt32 :=
  .ofList (t.numbered fun s => s.contributors.map Declaration.origin)

/-! ## Collisions and entries -/

/-- The names that several types claim. -/
def collisions (t : SymbolTable) : List Symbol := t.symbols.filter Symbol.isCollision

/-- The places of the entries with a name. -/
def originsOf (entries : List (String × Origin)) (name : String) : List Origin :=
  (entries.filter (·.1 == name)).map (·.2)

/-- The places of the resources with a name. -/
def resourceOrigins (t : SymbolTable) (name : String) : List Origin := originsOf t.resources name

/-- The places of the module attributes of a type. -/
def attributeOrigins (t : SymbolTable) (name : String) : List Origin := originsOf t.attributes name

/-- The names of the resources in order, each with its places. -/
def resourceIndex (t : SymbolTable) : List (String × List Origin) :=
  let names := (t.resources.map (·.1)).eraseDups.mergeSort fun a b => decide (a ≤ b)
  names.map fun name => (name, t.resourceOrigins name)

end SymbolTable

end ModuleLinker
