import TaggedRegex.Automaton.OfRegex
import TaggedRegex.Matcher
import TaggedRegex.Regex.Reading

set_option autoImplicit false

/-!
Matchers for patterns.
-/

namespace TaggedRegex

/-- How a pattern is matched. -/
structure Config where
  anchor : Anchor
  merge : Bool
  deriving DecidableEq

/-- Nothing but the pattern may be in the input, and equivalent states are merged. -/
def Config.standard : Config := ⟨.full, true⟩

/-- The matcher of an expression. -/
def Regex.matcher (regex : Regex) (config : Config) : Except Fault Matcher := do
  let automaton ← regex.automaton config.anchor
  Matcher.ofAutomaton automaton config.merge

/-- The matcher of a pattern, if the pattern can be read. -/
def Matcher.ofPattern (pattern : String) (config : Config) :
    Except ParseError (Except Fault Matcher) :=
  (Regex.parse pattern).map fun regex => regex.matcher config

end TaggedRegex
