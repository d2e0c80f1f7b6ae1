import TaggedRegex.Automaton.Basic
import TaggedRegex.Capture.Match

set_option autoImplicit false

/-!
Trails, the edges crossed by a walk through an automaton. A trail remembers how much of the input
had been read at every crossing, which is all that the capture groups need to know.
-/

namespace TaggedRegex

/-- An edge that was crossed. `consumed` counts the characters read by then, the one read over the
edge itself included. -/
structure Crossing where
  edge : Edge
  consumed : Nat
  deriving DecidableEq

/-- The crossed edges, oldest first. -/
abbrev Trail := List Crossing

namespace Trail

/-- How much had been consumed at every crossing of a tag, oldest first. -/
def crossings (trail : Trail) (tag : Tag) : List Nat :=
  (trail.filter fun crossing => crossing.edge.tag = some tag).map Crossing.consumed

/-- The boundary that a tag marks once `consumed` characters have been read. -/
def boundary (consumed : Nat) (tag : Tag) : Int := (consumed : Int) - 1 + tag.offset

/-- The boundaries marked by a tag, newest first. -/
def recorded (trail : Trail) (tag : Tag) : List Int :=
  ((trail.crossings tag).map fun consumed => boundary consumed tag).reverse

/-- The spans of a group, oldest first: each begins where its start tag was crossed and ends before
the place where its end tag was crossed. -/
def spans (trail : Trail) (group : Group) : List Span :=
  ((trail.crossings group.startTag).zip (trail.crossings group.endTag)).map fun (first, limit) =>
    ⟨first, (limit : Int) - 1⟩

/-- The group has ended as often as it has begun. -/
def Closed (trail : Trail) (group : Nat) : Prop :=
  (trail.crossings ⟨group, .opening⟩).length = (trail.crossings ⟨group, .closing⟩).length

/-- Every group begins as often as it ends. -/
def Balanced (trail : Trail) : Prop := ∀ group, trail.Closed group

@[simp] theorem crossings_nil (tag : Tag) : crossings [] tag = [] := rfl

@[simp] theorem crossings_append (first second : Trail) (tag : Tag) :
    crossings (first ++ second) tag = first.crossings tag ++ second.crossings tag := by
  simp only [crossings, List.filter_append, List.map_append]

theorem crossings_cons (crossing : Crossing) (rest : Trail) (tag : Tag) :
    crossings (crossing :: rest) tag =
      (if crossing.edge.tag = some tag then [crossing.consumed] else []) ++
        crossings rest tag := by
  unfold crossings
  by_cases here : crossing.edge.tag = some tag
  · rw [List.filter_cons_of_pos (by simpa using here), if_pos here]
    rfl
  · rw [List.filter_cons_of_neg (by simpa using here), if_neg here]
    rfl

theorem crossings_untagged {edge : Edge} (untagged : edge.tag = none) (consumed : Nat) (tag : Tag) :
    crossings [⟨edge, consumed⟩] tag = [] := by
  rw [crossings_cons, untagged]
  rfl

theorem crossings_tagged {edge : Edge} {tag : Tag} (tagged : edge.tag = some tag) (consumed : Nat)
    (other : Tag) :
    crossings [⟨edge, consumed⟩] other = if other = tag then [consumed] else [] := by
  rw [crossings_cons, tagged, crossings_nil, List.append_nil]
  simp only [Option.some.injEq, eq_comm]

/-- The newest boundary comes first. -/
theorem recorded_concat (trail : Trail) (edge : Edge) (consumed : Nat) (tag : Tag) :
    recorded (trail ++ [⟨edge, consumed⟩]) tag =
      (if edge.tag = some tag then [boundary consumed tag] else []) ++ trail.recorded tag := by
  rw [recorded, crossings_append, crossings_cons, crossings_nil, List.append_nil,
    List.map_append, List.reverse_append]
  congr 1
  by_cases here : edge.tag = some tag
  · rw [if_pos here, if_pos here]
    rfl
  · rw [if_neg here, if_neg here]
    rfl

theorem boundary_startTag (consumed : Nat) (group : Group) :
    boundary consumed group.startTag = consumed := by
  show (consumed : Int) - 1 + 1 = consumed
  omega

theorem boundary_endTag (consumed : Nat) (group : Group) :
    boundary consumed group.endTag = (consumed : Int) - 1 := by
  show (consumed : Int) - 1 + 0 = consumed - 1
  omega

/-- The spans are the recorded boundaries of the two tags, paired oldest first. -/
theorem spans_eq_zip_recorded (trail : Trail) (group : Group) :
    trail.spans group = ((trail.recorded group.startTag).reverse.zip
      (trail.recorded group.endTag).reverse).map fun (first, last) => ⟨first, last⟩ := by
  unfold spans recorded
  rw [List.reverse_reverse, List.reverse_reverse, List.zip_map, List.map_map]
  apply List.map_congr_left
  intro pair _
  show Span.mk _ _ = Span.mk (boundary pair.1 group.startTag) (boundary pair.2 group.endTag)
  rw [boundary_startTag, boundary_endTag]

end Trail

end TaggedRegex
