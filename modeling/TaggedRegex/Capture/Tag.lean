set_option autoImplicit false

/-!
Capture groups and the tags that mark their boundaries on the edges of an automaton.
-/

namespace TaggedRegex

/-- The two ends of a group, the opening one first. -/
inductive Boundary where
  | opening
  | closing
  deriving DecidableEq

/-- The mark "this group begins here" or "this group ends here". -/
structure Tag where
  group : Nat
  boundary : Boundary
  deriving DecidableEq

namespace Tag

/-- What the mark adds to the position of the last character read: a group begins at the character
that follows it and ends, inclusively, on it. -/
def offset (tag : Tag) : Int :=
  match tag.boundary with
  | .opening => 1
  | .closing => 0

theorem offset_bounds (tag : Tag) : 0 ≤ tag.offset ∧ tag.offset ≤ 1 := by
  unfold offset
  split <;> decide

def text (tag : Tag) : String :=
  match tag.boundary with
  | .opening => "↑" ++ toString tag.group
  | .closing => "↓" ++ toString tag.group

/-- Tags are ordered by their group, and its beginning comes before its end. -/
instance : LT Tag where
  lt a b := a.group < b.group ∨
    a.group = b.group ∧ a.boundary = .opening ∧ b.boundary = .closing

instance (a b : Tag) : Decidable (a < b) :=
  inferInstanceAs (Decidable (a.group < b.group ∨
    a.group = b.group ∧ a.boundary = .opening ∧ b.boundary = .closing))

end Tag

/-- A capture group and the number of the group around it. Group 0 is the entire match and counts
as its own parent. -/
structure Group where
  number : Nat
  parent : Nat
  deriving DecidableEq

namespace Group

def entireMatch : Group := ⟨0, 0⟩

def startTag (group : Group) : Tag := ⟨group.number, .opening⟩

def endTag (group : Group) : Tag := ⟨group.number, .closing⟩

end Group

end TaggedRegex
