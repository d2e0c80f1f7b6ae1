import TaggedRegex.CharRange.Basic

set_option autoImplicit false

/-!
The characters outside a list of ranges, as sorted ranges with gaps between them.
-/

namespace TaggedRegex.CharRange

/-- The gaps of ranges sorted by lower bound, from the ordinal `next` on: what lies between `next`
and a range is a gap, and the search goes on after the range unless it is already further. -/
def gapsFrom (next : Nat) : List CharRange → List CharRange
  | [] => (ofOrdinals? next Char.numCodePoints).toList
  | range :: rest =>
      (ofOrdinals? next range.lo.ordinal.val).toList ++
        gapsFrom (max next (range.hi.ordinal.val + 1)) rest

/-- The characters that lie in none of `ranges`. -/
def complement (ranges : List CharRange) : List CharRange :=
  gapsFrom 0 (ranges.mergeSort fun a b => decide (a.lo ≤ b.lo))

end TaggedRegex.CharRange
