import TaggedRegex.Text.Quoted

set_option autoImplicit false

/-!
Why a pattern is not a regular expression, and where. Places count bytes of UTF-8 from the
beginning of the pattern.
-/

namespace TaggedRegex

inductive ParseError where
  /-- A letter or digit that has no meaning after a backslash. -/
  | unexpectedChar (place : Nat) (c : Char)
  /-- The place is that of the opening parenthesis. -/
  | unclosedGroup (place : Nat)
  /-- A closing parenthesis without an opening one. -/
  | trailingParen (place : Nat)
  /-- A quantifier with nothing in front of it. -/
  | missingOperand (place : Nat)
  /-- The place is that of the opening bracket. -/
  | unclosedClass (place : Nat)
  /-- A range in a class whose bounds are in the wrong order, or whose upper bound is no character.
  The place is that of its lower bound. -/
  | badRange (place : Nat)
  /-- A backslash at the end of the pattern. -/
  | trailingEscape (place : Nat)
  /-- A construct outside the syntax. -/
  | unsupported (place : Nat)
  /-- The place is that of the parenthesis that opens one level too many. -/
  | tooDeep (place : Nat)
  deriving DecidableEq

namespace ParseError

def place : ParseError → Nat
  | .unexpectedChar place _ => place
  | .unclosedGroup place => place
  | .trailingParen place => place
  | .missingOperand place => place
  | .unclosedClass place => place
  | .badRange place => place
  | .trailingEscape place => place
  | .unsupported place => place
  | .tooDeep place => place

def message : ParseError → String
  | .unexpectedChar place c => "Unexpected " ++ Text.quoteChar c ++ " at " ++ toString place
  | .unclosedGroup place => "Unclosed group opened at " ++ toString place
  | .trailingParen place => "Unmatched right parenthesis at " ++ toString place
  | .missingOperand place => "Missing operand for quantifier at " ++ toString place
  | .unclosedClass place => "Unclosed character class opened at " ++ toString place
  | .badRange place => "Inverted character range at " ++ toString place
  | .trailingEscape place => "Trailing backslash at " ++ toString place
  | .unsupported place => "Unsupported syntax at " ++ toString place
  | .tooDeep place => "Group at " ++ toString place ++ " is nested too deeply"

end ParseError

end TaggedRegex
