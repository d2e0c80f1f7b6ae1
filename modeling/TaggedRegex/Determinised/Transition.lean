import TaggedRegex.CharRange.Basic
import TaggedRegex.History.Instruction

set_option autoImplicit false

/-!
A transition of the determinised automaton.
-/

namespace TaggedRegex

/-- From one numbered state to another on every character of a range, running the instructions. -/
structure Transition where
  source : Nat
  range : CharRange
  target : Nat
  instructions : List Instruction
  deriving DecidableEq

def Transition.text (transition : Transition) : String :=
  toString transition.source ++ "-" ++ transition.range.text ++ " -> " ++
    toString transition.target ++ " " ++ Instruction.listText transition.instructions

end TaggedRegex
