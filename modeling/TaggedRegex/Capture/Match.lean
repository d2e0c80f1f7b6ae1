import TaggedRegex.Fault

set_option autoImplicit false

/-!
The outcome of matching one input.
-/

namespace TaggedRegex

/-- The characters from position `first` to position `last`, both included. The span before
position `p` that holds nothing ends at `p - 1`. -/
structure Span where
  first : Int
  last : Int
  deriving DecidableEq

namespace Span

/-- What is reported for a group that took no part. -/
def unset : Span := ⟨-1, -1⟩

/-- The number of characters; none if the end lies before the beginning. -/
def length (span : Span) : Nat := (span.last + 1 - span.first).toNat

def isEmpty (span : Span) : Bool := span.length = 0

def text (span : Span) : String := toString span.first ++ "-" ++ toString span.last

end Span

/-- A group that the pattern does not have, and the number of groups that it has. -/
structure NoSuchGroup where
  group : Nat
  count : Nat
  deriving DecidableEq

def NoSuchGroup.message (error : NoSuchGroup) : String :=
  "No capture group " ++ toString error.group ++ " (the pattern has " ++ toString error.count ++ ")"

/-- All spans of every group, oldest first. There is at least group 0, the entire match. -/
structure Captures where
  groups : List (List Span)
  hasEntireMatch : groups ≠ []
  deriving DecidableEq

namespace Captures

/-- Captures need the spans of group 0. -/
def ofGroups (groups : List (List Span)) : Except Fault Captures :=
  if h : groups ≠ [] then .ok ⟨groups, h⟩ else .error .noEntireMatch

/-- The number of groups. -/
def size (captures : Captures) : Nat := captures.groups.length

def isEmpty (captures : Captures) : Bool := captures.groups.isEmpty

@[simp] theorem isEmpty_eq_false (captures : Captures) : captures.isEmpty = false := by
  simp [isEmpty, captures.hasEntireMatch]

/-- All spans of a group, oldest first. -/
def history (captures : Captures) (group : Nat) : Except NoSuchGroup (List Span) :=
  match captures.groups[group]? with
  | some spans => .ok spans
  | none => .error ⟨group, captures.size⟩

/-- The last span of a group, if it took part in the match. -/
def get (captures : Captures) (group : Nat) : Except NoSuchGroup (Option Span) :=
  (captures.history group).map List.getLast?

end Captures

inductive MatchResult where
  | noMatch
  | matched (captures : Captures)
  deriving DecidableEq

namespace MatchResult

def isMatch : MatchResult → Bool
  | .noMatch => false
  | .matched _ => true

/-- The number of groups, the entire match counted; zero without a match. -/
def groupCount : MatchResult → Nat
  | .noMatch => 0
  | .matched captures => captures.size

/-- The last span of a group, if it took part. Without a match no group did. -/
def group (result : MatchResult) (number : Nat) : Except NoSuchGroup (Option Span) :=
  match result with
  | .noMatch => .ok none
  | .matched captures => captures.get number

/-- All spans of a group, oldest first. -/
def history (result : MatchResult) (number : Nat) : Except NoSuchGroup (List Span) :=
  match result with
  | .noMatch => .ok []
  | .matched captures => captures.history number

/-- The last span of a group, or the one that stands for an absent group. -/
def spanOf (result : MatchResult) (number : Nat) : Except NoSuchGroup Span :=
  (result.group number).map fun span => span.getD .unset

/-- Where the last span of a group begins. -/
def startOf (result : MatchResult) (number : Nat) : Except NoSuchGroup Int :=
  (result.spanOf number).map Span.first

/-- Where the last span of a group ends. -/
def endOf (result : MatchResult) (number : Nat) : Except NoSuchGroup Int :=
  (result.spanOf number).map Span.last

/-- The span of the entire match, or the one that stands for its absence. -/
def entire (result : MatchResult) : Span :=
  match result.spanOf 0 with
  | .ok span => span
  | .error _ => .unset

/-- Where the entire match begins, or -1. -/
def start (result : MatchResult) : Int := result.entire.first

/-- Where the entire match ends, or -1. -/
def last (result : MatchResult) : Int := result.entire.last

def text (result : MatchResult) : String :=
  match result with
  | .noMatch => "NO_MATCH"
  | .matched _ => result.entire.text

end MatchResult

end TaggedRegex
