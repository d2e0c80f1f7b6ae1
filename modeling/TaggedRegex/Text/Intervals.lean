import TaggedRegex.PartitionPoint

set_option autoImplicit false

/-!
Sets of code points given as sorted, disjoint, inclusive intervals.
-/

namespace TaggedRegex.Text

/-- Whether `n` lies in one of the intervals, which are sorted and disjoint: only the first
interval that does not end before `n` can hold it. -/
def inIntervals (intervals : Array (Nat × Nat)) (n : Nat) : Bool :=
  match intervals[partitionPoint intervals fun interval => interval.2 < n]? with
  | some (lo, _) => lo ≤ n
  | none => false

end TaggedRegex.Text
