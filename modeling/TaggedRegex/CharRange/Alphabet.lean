import TaggedRegex.CharRange.Basic
import TaggedRegex.PartitionPoint

set_option autoImplicit false

/-!
The alphabet of a list of ranges: the covered characters, cut wherever one of the ranges begins or
ends. Two characters of one part are told apart by none of the ranges, so what is computed for one
of them holds for the whole part.
-/

namespace TaggedRegex

/-- Disjoint ranges of characters in increasing order. -/
structure Alphabet where
  ranges : Array CharRange

namespace Alphabet

/-- Adds a cut to strictly increasing cuts. -/
def insertCut (cut : Nat) : List Nat → List Nat
  | [] => [cut]
  | first :: rest =>
      if cut < first then cut :: first :: rest
      else if cut = first then first :: rest
      else first :: insertCut cut rest

@[simp] theorem mem_insertCut (cut : Nat) (cuts : List Nat) (n : Nat) :
    n ∈ insertCut cut cuts ↔ n = cut ∨ n ∈ cuts := by
  induction cuts with
  | nil => simp [insertCut]
  | cons first rest ih =>
    simp only [insertCut]
    split
    · simp
    · split
      · rename_i same
        simp [same]
      · simp [ih, or_left_comm]

/-- The ordinals at which some range begins or has just ended, strictly increasing. -/
def cuts (ranges : List CharRange) : List Nat :=
  ranges.foldr (fun range rest =>
    insertCut range.lo.ordinal.val (insertCut (range.hi.ordinal.val + 1) rest)) []

/-- The parts between neighbouring cuts that begin inside one of the ranges. -/
def partsBetween (ranges : List CharRange) : List Nat → List CharRange
  | first :: limit :: rest =>
      ((CharRange.ofOrdinals? first limit).filter fun part =>
        ranges.any fun range => decide (part.lo ∈ range)).toList ++
        partsBetween ranges (limit :: rest)
  | _ => []

/-- The coarsest disjoint ranges of which each of `ranges` is a union. -/
def ofRanges (ranges : List CharRange) : Alphabet :=
  ⟨(partsBetween ranges (cuts ranges)).toArray⟩

/-- The part that holds `c`: of increasing parts only the first one that does not end before `c`
can hold it. -/
def find? (alphabet : Alphabet) (c : Char) : Option CharRange :=
  alphabet.ranges[partitionPoint alphabet.ranges fun part => part.hi < c]?.filter fun part =>
    decide (c ∈ part)

theorem mem_of_find? (alphabet : Alphabet) (c : Char) (part : CharRange)
    (found : alphabet.find? c = some part) : c ∈ part := by
  simpa using (Option.filter_eq_some_iff.1 found).2

end Alphabet

end TaggedRegex
