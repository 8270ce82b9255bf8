import ModuleLinker.SymbolTable

namespace ModuleLinker

/-! # Traversing the inputs at once

Every input has a worker, and all workers fill the same slots and indices. A claim on the slot of a
name and an entry in an index is one step each. A worker takes its steps in order, but nothing is said
about the steps of different workers. When there is nothing left to do, the slots, which may be listed
in any order, are frozen into a symbol table. The name of an attribute's type is at hand when the attribute
is entered. Searching for it is no step, so that nothing is said of a search that does not come to an end.
-/

namespace Origin

/-- Whether a place is at or before another one, in the order of modules and of what they declare. -/
def le (a b : Origin) : Bool :=
  decide (a.module < b.module ∨ (a.module = b.module ∧ a.index ≤ b.index))

end Origin

/-! ## Indices in the order of names -/

/-- A name and a place of something that has it. -/
abbrev Entry := String × Origin

namespace Entry

/-- Whether an entry is at or before another one, in the order of names and, under one name, of
places. -/
def le (a b : Entry) : Bool := decide (a.1 < b.1) || (decide (a.1 = b.1) && a.2.le b.2)

/-- The index with an entry at its place; an entry that is there already is not repeated. -/
def enter (e : Entry) : List Entry → List Entry
  | [] => [e]
  | other :: rest =>
    if e = other then other :: rest
    else if e.le other then e :: other :: rest
    else other :: enter e rest

end Entry

namespace Traversal

/-! ## Workers -/

/-- A step of a worker. -/
inductive Event where
  /-- A type claims the slot of its name. -/
  | claimSlot (d : Declaration)
  /-- A resource is entered under its name. -/
  | enterResource (e : Entry)
  /-- An attribute is entered under the name of its type. -/
  | enterAttribute (e : Entry)

/-- The steps of the worker of an input: its types first, then its resources and its attributes. -/
def events (m : Module) (index : Nat) : List Event :=
  (ModuleSet.declarationsOf m index).map .claimSlot ++
    m.resources.zipIdx.map (fun (r, i) => .enterResource (r.name, ⟨index, i⟩)) ++
    m.attributes.zipIdx.map fun (a, i) => .enterAttribute (m.typeNameOrToken a.type, ⟨index, i⟩)

/-- A traversal that is under way. -/
structure State where
  /-- What each worker has still to do. -/
  pending : List (List Event)
  /-- The slots that have been claimed; later claims on a slot stand behind earlier ones. -/
  slots : List Symbol
  resources : List Entry
  attributes : List Entry

namespace State

/-- No worker has begun. -/
def start (s : ModuleSet) : State :=
  ⟨s.inputs.zipIdx.map fun (m, i) => events m i, [], [], []⟩

/-- The slots and indices after a step. -/
def perform (s : State) : Event → State
  | .claimSlot d => { s with slots := Symbol.claim d s.slots }
  | .enterResource e => { s with resources := Entry.enter e s.resources }
  | .enterAttribute e => { s with attributes := Entry.enter e s.attributes }

/-- The state after workers have taken their steps in turn; one that has nothing left to do is passed
over. -/
def run (s : State) : List Nat → State
  | [] => s
  | worker :: schedule =>
    match s.pending[worker]? with
    | some (e :: rest) => ({ s with pending := s.pending.set worker rest }.perform e).run schedule
    | _ => s.run schedule

/-- Whether no worker has anything left to do. -/
def Done (s : State) : Prop := ∀ events ∈ s.pending, events = []

end State

/-- Some worker takes its next step. -/
inductive Step : State → State → Prop where
  | take {s : State} {worker : Nat} {e : Event} {rest : List Event} :
    s.pending[worker]? = some (e :: rest) →
      Step s ({ s with pending := s.pending.set worker rest }.perform e)

/-! ## Freezing -/

/-- A symbol with the types that claim it in their order. -/
def sortContributors (s : Symbol) : Symbol :=
  match s.contributors.mergeSort fun a b => a.origin.le b.origin with
  | [] => s
  | first :: others => { s with first, others }

/-- The symbol table of slots and indices; the symbols are put in the order of their first types. -/
def freeze (slots : List Symbol) (resources attributes : List Entry) : SymbolTable where
  symbols := (slots.map sortContributors).mergeSort fun a b => a.first.origin.le b.first.origin
  resources := resources
  attributes := attributes

end Traversal

end ModuleLinker
