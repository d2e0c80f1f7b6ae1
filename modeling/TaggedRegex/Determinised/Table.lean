import TaggedRegex.Fault
import TaggedRegex.PartitionPoint

set_option autoImplicit false

/-!
The transitions compiled so far, sorted by source, then by range. One that is missing has not been
needed yet.
-/

namespace TaggedRegex

namespace Transition

/-- The order of the table. -/
def before (a b : Transition) : Bool :=
  a.source < b.source || (a.source = b.source && a.range < b.range)

/-- Whether no character leads over both transitions from the same source. -/
def disjoint (a b : Transition) : Bool :=
  a.source ≠ b.source || a.range.hi < b.range.lo || b.range.hi < a.range.lo

end Transition

structure Table where
  transitions : Array Transition

namespace Table

def empty : Table := ⟨#[]⟩

/-- The place of the transition out of `source` on `c`: only the first transition that does not end
before `c` can be the one. -/
def find? (table : Table) (source : Nat) (c : Char) : Option Nat :=
  let place := partitionPoint table.transitions fun transition =>
    transition.source < source || (transition.source = source && transition.range.hi < c)
  match table.transitions[place]? with
  | some transition =>
      if transition.source = source ∧ c ∈ transition.range then some place else none
  | none => none

/-- The transition out of `source` on `c`. -/
def get? (table : Table) (source : Nat) (c : Char) : Option Transition :=
  (table.find? source c).bind fun place => table.transitions[place]?

/-- The transition at a place, which must exist. -/
def get (table : Table) (place : Nat) : Except Fault Transition :=
  match table.transitions[place]? with
  | some transition => .ok transition
  | none => .error (.outOfBounds place table.transitions.size)

/-- Adds a transition at its place in the order. It may share no character with one from the same
source; in a sorted table its neighbours tell. -/
def insert (table : Table) (transition : Transition) : Except Fault (Nat × Table) :=
  let place := partitionPoint table.transitions fun other => other.before transition
  let left := if place = 0 then none else table.transitions[place - 1]?
  let right := table.transitions[place]?
  if left.all transition.disjoint ∧ right.all transition.disjoint then
    .ok (place, ⟨table.transitions.insertIdxIfInBounds place transition⟩)
  else .error (.overlap transition)

/-- Every transition on a line of its own. -/
def lines (table : Table) : List String := table.transitions.toList.map Transition.text

/-- The lines, each with its end. -/
def text (table : Table) : String := String.join (table.lines.map fun line => line ++ "\n")

end Table

end TaggedRegex
