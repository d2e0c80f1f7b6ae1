import TaggedRegex.Automaton.Label
import TaggedRegex.Capture.Tag
import TaggedRegex.Ident

set_option autoImplicit false

/-!
Nondeterministic automata whose edges carry priorities and tags.
-/

namespace TaggedRegex

/-- All normal edges out of a state are tried before any low one. -/
inductive Priority where
  | normal
  | low
  deriving DecidableEq

/-- The target half of an edge. `seq` counts the edges connected before it. -/
structure Edge where
  target : StateId
  priority : Priority
  tag : Option Tag
  seq : Nat
  deriving DecidableEq

namespace Edge

/-- Whether `a` may be tried before `b` among the edges out of one state: priority decides, then the
order in which they were connected. -/
def notAfter (a b : Edge) : Bool :=
  match a.priority, b.priority with
  | .normal, .low => true
  | .low, .normal => false
  | _, _ => decide (a.seq ≤ b.seq)

def text (edge : Edge) : String :=
  edge.target.text ++ (if edge.priority = .low then " (low)" else "") ++
    match edge.tag with
    | some tag => " " ++ tag.text
    | none => ""

end Edge

/-- The edges with one source and one label, in the order in which they are tried. -/
structure Row where
  source : StateId
  label : Label
  edges : List Edge
  deriving DecidableEq

/-- An automaton with one initial and one accepting state. Its rows are sorted by source, then by
label, and its groups by their number, from 0 on without a gap. -/
structure Automaton where
  rows : List Row
  initial : StateId
  accept : StateId
  groups : List Group
  deriving DecidableEq

namespace Automaton

/-- The edges out of a state that carry exactly this label. -/
def edgesAt (automaton : Automaton) (state : StateId) (label : Label) : List Edge :=
  match automaton.rows.find? fun row => row.source = state ∧ row.label = label with
  | some row => row.edges
  | none => []

/-- The epsilon edges out of a state. -/
def onEpsilon (automaton : Automaton) (state : StateId) : List Edge :=
  automaton.edgesAt state .epsilon

/-- The edges out of a state that are open only at the end of the input. -/
def onEnd (automaton : Automaton) (state : StateId) : List Edge :=
  automaton.edgesAt state .atEnd

/-- The edges out of a state that may read `c`. -/
def onChar (automaton : Automaton) (state : StateId) (c : Char) : List Edge :=
  ((automaton.rows.filter fun row => row.source = state ∧ row.label.reads c).flatMap Row.edges
    ).mergeSort Edge.notAfter

/-- A state is live if it accepts or waits for something: a character or the end of the input. -/
def isLive (automaton : Automaton) (state : StateId) : Bool :=
  state = automaton.accept ||
    automaton.rows.any fun row => row.source = state ∧ row.label ≠ .epsilon

/-- The start and end tag of every group, in the order of the groups. -/
def tags (automaton : Automaton) : List Tag :=
  automaton.groups.flatMap fun group => [group.startTag, group.endTag]

/-- The place of a tag among all tags. -/
def slot? (automaton : Automaton) (tag : Tag) : Option Nat := automaton.tags.idxOf? tag

/-- The ranges on the edges, row by row. -/
def inputRanges (automaton : Automaton) : List CharRange :=
  automaton.rows.filterMap fun row => row.label.range?

/-- The states to which some edge leads. -/
def targets (automaton : Automaton) : List StateId :=
  automaton.rows.flatMap fun row => row.edges.map Edge.target

/-- The initial and the accepting state, then every edge on a line of its own. -/
def lines (automaton : Automaton) : List String :=
  ("initial " ++ automaton.initial.text ++ ", accept " ++ automaton.accept.text) ::
    automaton.rows.flatMap fun row => row.edges.map fun edge =>
      row.source.text ++ " -" ++ row.label.text ++ "-> " ++ edge.text

end Automaton

end TaggedRegex
