import TaggedRegex.CharRange.Basic

set_option autoImplicit false

/-!
What an edge of an automaton asks of the input.
-/

namespace TaggedRegex

/-- An edge reads one character of a range, or reads nothing and is open only at the end of the
input, or reads nothing and is always open. -/
inductive Label where
  | chars (range : CharRange)
  | atEnd
  | epsilon
  deriving DecidableEq

namespace Label

/-- Ranges come first, in their own order, then the end of the input, then epsilon. -/
instance : LT Label where
  lt
    | .chars r, .chars s => r < s
    | .chars _, _ => True
    | .atEnd, .epsilon => True
    | _, _ => False

instance : (a b : Label) → Decidable (a < b)
  | .chars r, .chars s => inferInstanceAs (Decidable (r < s))
  | .chars _, .atEnd => .isTrue trivial
  | .chars _, .epsilon => .isTrue trivial
  | .atEnd, .chars _ => .isFalse id
  | .atEnd, .atEnd => .isFalse id
  | .atEnd, .epsilon => .isTrue trivial
  | .epsilon, .chars _ => .isFalse id
  | .epsilon, .atEnd => .isFalse id
  | .epsilon, .epsilon => .isFalse id

/-- Whether an edge with this label may read `c`. -/
def reads (label : Label) (c : Char) : Bool :=
  match label with
  | .chars range => decide (c ∈ range)
  | .atEnd => false
  | .epsilon => false

/-- The range of the label, if it has one. -/
def range? : Label → Option CharRange
  | .chars range => some range
  | .atEnd => none
  | .epsilon => none

def text : Label → String
  | .chars range => range.text
  | .atEnd => "$"
  | .epsilon => "ϵ"

end Label

end TaggedRegex
