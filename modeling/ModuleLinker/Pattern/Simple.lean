import ModuleLinker.Pattern.Basic
import ModuleLinker.Text.CaseFold

namespace ModuleLinker

/-! # Simple patterns

Patterns in a form without detours: characters in a row are one literal, a choice between characters
is a set, and a choice has no part in front that is common to all its branches. A simple pattern
matches where the pattern does that it is made from.
-/

/-- A pattern in its simple form. -/
inductive SimplePattern where
  | empty
  /-- One or more characters. -/
  | literal (cs : List Char)
  /-- Any character of a set, which has several or none. -/
  | set (s : CharSet)
  | anchor (a : Anchor)
  /-- An item and what follows it, which is a row again or the last item. -/
  | row (p q : SimplePattern)
  /-- A branch and the others, which are a choice again or the last branch. -/
  | choice (p q : SimplePattern)
  /-- A choice between literals. -/
  | words (words : List (List Char))
  | times (p : SimplePattern) (least : Nat) (most : Option Nat) (eager : Bool)
  /-- A group with a number. -/
  | group (p : SimplePattern)
deriving DecidableEq, Repr, Inhabited

namespace SimplePattern

/-! ## What patterns take -/

/-- Whether all matches are of no character. -/
def isPlace : SimplePattern → Bool
  | empty | anchor _ => true
  | literal _ | set _ | words _ => false
  | row p q => p.isPlace && q.isPlace
  | choice p q => p.isPlace && q.isPlace
  | times p _ _ _ => p.isPlace
  | group p => p.isPlace

/-- The least number of characters that a match has; none if a part matches nothing at all. -/
def leastLength? : SimplePattern → Option Nat
  | empty | anchor _ => some 0
  | literal cs => some cs.length
  | set s => if s.ranges.isEmpty then none else some 1
  | words ws => (ws.map List.length).min?
  | row p q => return (← p.leastLength?) + (← q.leastLength?)
  | choice p q => return min (← p.leastLength?) (← q.leastLength?)
  | times p least _ _ => return least * (← p.leastLength?)
  | group p => p.leastLength?

/-- Whether every match starts at an anchor. -/
def startsAt (a : Anchor) : SimplePattern → Bool
  | anchor b => a == b
  | empty | literal _ | set _ | words _ => false
  | row p q => p.startsAt a || (p.isPlace && q.startsAt a)
  | choice p q => p.startsAt a && q.startsAt a
  | times p least _ _ => least != 0 && p.startsAt a
  | group p => p.startsAt a

/-- Whether every match ends at an anchor. -/
def endsAt (a : Anchor) : SimplePattern → Bool
  | anchor b => a == b
  | empty | literal _ | set _ | words _ => false
  | row p q => q.endsAt a || (q.isPlace && p.endsAt a)
  | choice p q => p.endsAt a && q.endsAt a
  | times p least _ _ => least != 0 && p.endsAt a
  | group p => p.endsAt a

/-! ## Sets and repetitions -/

/-- Any character of a set. -/
def ofSet (s : CharSet) : SimplePattern :=
  match s.single? with
  | some c => literal [c]
  | none => set s

/-- A repetition. A place more than once is the same place. -/
def repetition (p : SimplePattern) (least : Nat) (most : Option Nat) (eager : Bool) :
    SimplePattern :=
  let (least, most) :=
    if p.isPlace then (min least 1, some ((most.map (min · 1)).getD 1)) else (least, most)
  if most = some 0 then empty
  else if least = 1 ∧ most = some 1 then p
  else times p least most eager

/-! ## Rows -/

/-- An item in front of a row, an item or nothing. -/
def consItem : SimplePattern → SimplePattern → SimplePattern
  | p, empty => p
  | literal cs, literal ds => literal (cs ++ ds)
  | literal cs, row (literal ds) q => row (literal (cs ++ ds)) q
  | p, q => row p q

/-- Two patterns one after the other. -/
def append : SimplePattern → SimplePattern → SimplePattern
  | empty, q => q
  | row p r, q => consItem p (r.append q)
  | p, q => consItem p q

/-- Patterns one after another. -/
def inRow (ps : List SimplePattern) : SimplePattern := ps.foldr append empty

/-- The items of a row; any other pattern is no row. -/
def rowItems? : SimplePattern → Option (List SimplePattern)
  | row p q => some (p :: (q.rowItems?.getD [q]))
  | _ => none

/-! ## Choices -/

/-- The branches of a choice; any other pattern is the only one. -/
def branches : SimplePattern → List SimplePattern
  | choice p q => p :: q.branches
  | words ws => ws.map literal
  | p => [p]

/-- A choice of branches as they are. -/
def ofBranches : List SimplePattern → SimplePattern
  | [] => set .empty
  | [p] => p
  | p :: ps => choice p (ofBranches ps)

/-- The characters of a literal. -/
def literal? : SimplePattern → Option (List Char)
  | literal cs => some cs
  | _ => none

/-- The character of a literal of one. -/
def char? : SimplePattern → Option Char
  | literal [c] => some c
  | _ => none

/-- The set of which any character matches. -/
def set? : SimplePattern → Option CharSet
  | set s => some s
  | _ => none

/-- Whether there is a group with a number in a pattern. -/
def hasGroup : SimplePattern → Bool
  | empty | literal _ | set _ | anchor _ | words _ => false
  | row p q | choice p q => p.hasGroup || q.hasGroup
  | times p _ _ _ => p.hasGroup
  | group _ => true

/-- The items that two rows start with in common; no two groups are the same, for they have different
numbers. -/
def commonItems : List SimplePattern → List SimplePattern → List SimplePattern
  | p :: ps, q :: qs => if p = q ∧ !p.hasGroup then p :: commonItems ps qs else []
  | _, _ => []

/-- The number of parts of a pattern. -/
def size : SimplePattern → Nat
  | empty | literal _ | set _ | anchor _ | words _ => 1
  | row p q | choice p q => p.size + q.size + 1
  | times p _ _ _ => p.size + 1
  | group p => p.size + 1

/-- A choice between patterns. What all branches start with comes before it; `n` bounds how often the
rest is a choice of the same kind. -/
def inChoice : (n : Nat) → List SimplePattern → SimplePattern
  | 0, ps => ofBranches ps
  | n + 1, ps =>
    let ps := ps.flatMap branches
    if let some cs := ps.mapM char? then ofSet (.ofCodes (cs.map Char.toNat))
    else if let some sets := ps.mapM set? then ofSet (.ofRanges (sets.flatMap (·.ranges)))
    else if let some literals := ps.mapM literal? then .words literals
    else
      match ps.mapM rowItems? with
      | some (items :: rest) =>
        let shared := rest.foldl commonItems items
        if shared.isEmpty then ofBranches ps
        else
          let rests := (items :: rest).map fun items => inRow (items.drop shared.length)
          inRow (shared ++ [inChoice n rests])
      | _ => ofBranches ps

/-- What branches make together; one alone is not a choice. -/
def ofChoice : List SimplePattern → SimplePattern
  | [p] => p
  | ps => inChoice ((ps.map size).foldr (· + ·) 0) ps

end SimplePattern

namespace Pattern

/-- The branches of a pattern in their simple forms; what is no choice has one. -/
def simpleBranches : Pattern → List SimplePattern
  | empty => [.empty]
  | char set _ => [.ofSet set]
  | anchor a => [.anchor a]
  | sequence p q => [(SimplePattern.ofChoice p.simpleBranches).append (.ofChoice q.simpleBranches)]
  | choice p q => .ofChoice p.simpleBranches :: q.simpleBranches
  | times p least most eager =>
    [SimplePattern.repetition (.ofChoice p.simpleBranches) least most eager]
  | group p numbered =>
    let inner := SimplePattern.ofChoice p.simpleBranches
    [if numbered then .group inner else inner]

/-- The simple form of a pattern. -/
def simplified (p : Pattern) : SimplePattern := .ofChoice p.simpleBranches

end Pattern

end ModuleLinker
