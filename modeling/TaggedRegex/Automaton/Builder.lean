import TaggedRegex.Automaton.Basic
import TaggedRegex.Fault

set_option autoImplicit false

/-!
Automata put together edge by edge.
-/

namespace TaggedRegex

/-- Puts an edge behind those that are tried before it: a normal edge after the normal ones, a low
edge at the end. -/
def Edge.insertInto (edge : Edge) (edges : List Edge) : List Edge :=
  match edge.priority with
  | .low => edges ++ [edge]
  | .normal =>
      (edges.takeWhile fun other => other.priority = .normal) ++
        edge :: edges.dropWhile fun other => other.priority = .normal

/-- Adds an edge to sorted rows, in the row of its source and label or in a new one. -/
def Row.insertEdge (source : StateId) (label : Label) (edge : Edge) : List Row → List Row
  | [] => [⟨source, label, [edge]⟩]
  | row :: rows =>
      if source = row.source ∧ label = row.label then
        { row with edges := edge.insertInto row.edges } :: rows
      else if source.index < row.source.index ∨ source = row.source ∧ label < row.label then
        ⟨source, label, [edge]⟩ :: row :: rows
      else row :: insertEdge source label edge rows

/-- Adds a group to groups sorted by number. -/
def Group.insertInto (group : Group) : List Group → List Group
  | [] => [group]
  | first :: rest =>
      if group.number < first.number then group :: first :: rest
      else first :: group.insertInto rest

/-- An automaton under construction; `connected` counts its edges. -/
structure Builder where
  states : Supply
  rows : List Row
  initial : Option StateId
  accept : Option StateId
  groups : List Group
  connected : Nat

namespace Builder

def empty : Builder := ⟨.empty, [], none, none, [], 0⟩

/-- A new state. -/
def state (builder : Builder) : Except Fault (StateId × Builder) :=
  builder.states.freshState.map fun (state, states) => (state, { builder with states })

/-- Adds an edge, which is tried after the ones connected before it. -/
def connect (builder : Builder) (source : StateId) (label : Label) (target : StateId)
    (priority : Priority) (tag : Option Tag) : Builder :=
  { builder with
    rows := Row.insertEdge source label ⟨target, priority, tag, builder.connected⟩ builder.rows
    connected := builder.connected + 1 }

def setInitial (builder : Builder) (state : StateId) : Except Fault Builder :=
  match builder.initial with
  | none => .ok { builder with initial := some state }
  | some _ => .error .secondInitialState

def setAccept (builder : Builder) (state : StateId) : Except Fault Builder :=
  match builder.accept with
  | none => .ok { builder with accept := some state }
  | some _ => .error .secondAcceptingState

def declareGroup (builder : Builder) (group : Group) : Except Fault Builder :=
  if builder.groups.any fun other => other.number = group.number then
    .error (.groupDeclaredTwice group.number)
  else .ok { builder with groups := group.insertInto builder.groups }

/-- The finished automaton. It has both distinguished states, its groups are numbered from 0
without a gap, and every tag belongs to one of them. -/
def build (builder : Builder) : Except Fault Automaton :=
  match builder.initial, builder.accept with
  | none, _ => .error .noInitialState
  | some _, none => .error .noAcceptingState
  | some initial, some accept =>
      let automaton : Automaton := ⟨builder.rows, initial, accept, builder.groups⟩
      if builder.groups.map Group.number ≠ List.range builder.groups.length then
        .error .groupsNotDense
      else
        match (builder.rows.flatMap fun row => row.edges.filterMap Edge.tag).find? fun tag =>
            tag ∉ automaton.tags with
        | some tag => .error (.undeclaredGroup tag)
        | none => .ok automaton

end Builder

end TaggedRegex
