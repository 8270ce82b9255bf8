import ModuleLinker.Pattern.Escape

namespace ModuleLinker

/-! # Classes in brackets

Sets of characters such as `[^a-z.]` and `[[:alpha:]&&[^x]]`: characters, ranges, named ASCII
classes and further brackets one after another, which are taken together, and operators between
such unions.
-/

namespace PatternReader

/-! ## Sets and their nesting -/

/-- A set, and how deep the brackets and operators that it is written with are nested. -/
structure NestedSet where
  set : CharSet
  depth : Nat

/-- What stands one after another between brackets. -/
structure ClassUnion where
  set : CharSet
  /-- The greatest depth of a part. -/
  depth : Nat
  /-- The number of parts. -/
  size : Nat

namespace ClassUnion

/-- A union of nothing. -/
def empty : ClassUnion := ⟨.empty, 0, 0⟩

/-- The union with one more part. -/
def add (u : ClassUnion) (part : NestedSet) : ClassUnion :=
  ⟨u.set.union part.set, max u.depth part.depth, u.size + 1⟩

/-- The set of all parts; several of them are one level deeper than each. -/
def nested (u : ClassUnion) : NestedSet := ⟨u.set, if u.size > 1 then u.depth + 1 else u.depth⟩

end ClassUnion

/-! ## Operators -/

/-- An operator between sets. -/
abbrev SetOperator := CharSet → CharSet → CharSet

/-- Takes an operator, if one comes next. -/
def setOperator : PatternReader (Option SetOperator) := do
  let found : Option SetOperator := match (← get).rest with
    | '&' :: '&' :: _ => some CharSet.inter
    | '-' :: '-' :: _ => some CharSet.diff
    | '~' :: '~' :: _ => some CharSet.symmDiff
    | _ => none
  if found.isSome then modify fun i => { i with rest := i.rest.drop 2 }
  return found

/-- What an operator makes of the set before it and the one after it; without an operator it is the
latter. Cases are added on either side before. -/
def combine (left : Option (SetOperator × NestedSet)) (right : NestedSet) :
    PatternReader NestedSet := do
  match left with
  | none => return right
  | some (operator, left) =>
    let set := operator (← withCases left.set) (← withCases right.set)
    return ⟨set, max left.depth right.depth + 1⟩

/-! ## Parts -/

/-- Takes a named ASCII class, if one comes next: its name between colons and brackets. -/
def asciiClass : PatternReader (Option CharSet) := do
  match (← get).rest with
  | '[' :: ':' :: rest =>
    let isNegated := rest.head? == some '^'
    let (name, after) := (if isNegated then rest.drop 1 else rest).span (· != ':')
    match after, Text.asciiClasses.lookup (String.ofList name) with
    | ':' :: ']' :: rest, some set =>
      modify fun i => { i with rest }
      let set ← withCases set
      if isNegated then return some (← negated set) else return some set
    | _, _ => return none
  | _ => return none

/-- The characters between two of them. Without Unicode only ASCII characters are a single byte, as
all members of a class have to be. -/
def rangeSet (low high : Char) : PatternReader CharSet := do
  let isByte := fun c : Char => c.toNat ≤ 0x7F
  if low ≤ high && ((← settings).unicode || isByte high) then return .range low high
  failure

/-- Takes one item or a range of a class. -/
def classItem : PatternReader CharSet := do
  let first ← item
  skip
  let hyphen ← peek
  let after ← peekSecond
  -- a hyphen before the closing bracket stands for itself, and two of them are an operator
  if hyphen == some '-' && after != some ']' && after != some '-' then
    let _ ← next
    skip
    match first, ← item with
    | .literal low, .literal high => rangeSet low high
    | _, _ => failure
  else
    match first with
    | .literal c => rangeSet c c
    | .set s => return s
    | .anchor _ => failure

/-- Takes hyphens at the front of a class, which stand for themselves; without any of them, so does a
closing bracket in their place. -/
def leadingParts : PatternReader ClassUnion := do
  let hyphens ← takeAllSpaced (· == '-')
  if hyphens.isEmpty then
    if ← acceptSkip ']' then return ClassUnion.empty.add ⟨.single ']', 0⟩
  return hyphens.foldl (fun u c => u.add ⟨.single c, 0⟩) .empty

mutual

/-- Takes a class after its opening bracket; `n` bounds the number of its parts. -/
def bracket : (n : Nat) → PatternReader NestedSet
  | 0 => failure
  | n + 1 => do
    skip
    let isNegated ← acceptSkip '^'
    let first ← leadingParts
    let inner ← classParts n none first
    let set ← withCases inner.set
    return ⟨← if isNegated then negated set else pure set, inner.depth + 1⟩

/-- Takes the parts of a class up to its closing bracket: `left` is what stands before the last
operator, and `u` what was taken since. -/
def classParts : (n : Nat) → (left : Option (SetOperator × NestedSet)) → (u : ClassUnion) →
    PatternReader NestedSet
  | 0, _, _ => failure
  | n + 1, left, u => do
    skip
    if ← accept ']' then return ← combine left u.nested
    if let some operator ← setOperator then
      let left ← combine left u.nested
      return ← classParts n (some (operator, left)) .empty
    if let some set ← asciiClass then
      return ← classParts n left (u.add ⟨set, 0⟩)
    if ← accept '[' then
      let inner ← bracket n
      classParts n left (u.add inner)
    else
      let set ← classItem
      classParts n left (u.add ⟨set, 0⟩)

end

end PatternReader

end ModuleLinker
