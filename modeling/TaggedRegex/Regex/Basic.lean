import TaggedRegex.CharRange.Complement

set_option autoImplicit false

/-!
Regular expressions.
-/

namespace TaggedRegex

/-- Whether a repetition would rather go on or stop. -/
inductive Greed where
  | greedy
  | lazy
  deriving DecidableEq

/-- How often a repetition may take its body: any number of times, at least once, or at most
once. -/
inductive Quantifier where
  | star
  | plus
  | opt
  deriving DecidableEq

inductive Regex where
  /-- Any character. -/
  | any
  | lit (c : Char)
  /-- A character of one of the ranges. -/
  | set (ranges : List CharRange)
  /-- A capture group. -/
  | group (body : Regex)
  | rep (quantifier : Quantifier) (greed : Greed) (body : Regex)
  /-- The branches, the preferred one first. -/
  | alt (branches : List Regex)
  | cat (items : List Regex)
  /-- The end of the input. -/
  | atEnd
  deriving Inhabited

namespace Regex

mutual

/-- The number of capture groups, the entire match not counted. -/
def groupCount : Regex → Nat
  | .any | .lit _ | .set _ | .atEnd => 0
  | .group body => body.groupCount + 1
  | .rep _ _ body => body.groupCount
  | .alt branches => groupCounts branches
  | .cat items => groupCounts items

/-- The number of capture groups in some expressions together. -/
def groupCounts : List Regex → Nat
  | [] => 0
  | regex :: rest => regex.groupCount + groupCounts rest

end

/-- The ASCII digits. -/
def digits : List CharRange := [⟨'0', '9', by decide⟩]

/-- The characters of words. -/
def wordChars : List CharRange :=
  [⟨'0', '9', by decide⟩, ⟨'A', 'Z', by decide⟩, .single '_', ⟨'a', 'z', by decide⟩]

/-- The blanks of ASCII. -/
def blanks : List CharRange := [⟨'\t', '\r', by decide⟩, .single ' ']

end Regex

end TaggedRegex
