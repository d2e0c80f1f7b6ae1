import TaggedRegex.Automaton.Builder
import TaggedRegex.Regex.Basic

set_option autoImplicit false

/-!
The automaton of a regular expression. Every expression is laid out between two states; which of
its edges are low decides which of several matches wins.
-/

namespace TaggedRegex

/-- Whether the whole input must match, or group 0 is the first match anywhere in it. -/
inductive Anchor where
  | full
  | search
  deriving DecidableEq

namespace Greed

/-- The priority of another round of a repetition. -/
def enter : Greed → Priority
  | .greedy => .normal
  | .lazy => .low

/-- The priority of leaving a repetition. -/
def leave : Greed → Priority
  | .greedy => .low
  | .lazy => .normal

end Greed

namespace Builder

/-- Adds an epsilon edge without a tag. -/
def epsilon (builder : Builder) (source target : StateId) (priority : Priority) : Builder :=
  builder.connect source .epsilon target priority none

/-- Adds an edge for one character out of a range. -/
def readRange (builder : Builder) (source target : StateId) (range : CharRange) : Builder :=
  builder.connect source (.chars range) target .normal none

/-- Adds the edges of a repetition whose body lies between `first` and `last`. -/
def repetition (builder : Builder) (quantifier : Quantifier) (greed : Greed)
    (head first last tail : StateId) : Builder :=
  match quantifier with
  | .star =>
      (((builder.epsilon head first greed.enter).epsilon head tail greed.leave).epsilon
        last first greed.enter).epsilon last tail greed.leave
  | .plus =>
      ((builder.epsilon head first .normal).epsilon last first greed.enter).epsilon
        last tail greed.leave
  | .opt =>
      ((builder.epsilon head first greed.enter).epsilon head tail greed.leave).epsilon
        last tail .normal

/-- Two new states, the first and the last one of a body. -/
def twoStates (builder : Builder) : Except Fault (StateId × StateId × Builder) := do
  let (first, builder) ← builder.state
  let (last, builder) ← builder.state
  return (first, last, builder)

/-- Lays out a body between two new states and the tags of a group around it. -/
def tagged (builder : Builder) (number : Nat) (head tail : StateId)
    (body : Builder → StateId → StateId → Except Fault Builder) : Except Fault Builder := do
  let (first, last, builder) ← builder.twoStates
  let builder := builder.connect head .epsilon first .normal (some ⟨number, .opening⟩)
  let builder ← body builder first last
  return builder.connect last .epsilon tail .normal (some ⟨number, .closing⟩)

mutual

/-- Lays out an expression between `head` and `tail`, inside the group `parent`. A group takes the
next number before its body is laid out, so groups are numbered as they open. -/
def addRegex (builder : Builder) (head tail : StateId) (parent : Nat) :
    Regex → Except Fault Builder
  | .any => .ok (builder.readRange head tail .all)
  | .lit c => .ok (builder.readRange head tail (.single c))
  | .set ranges =>
      .ok (ranges.foldl (fun builder range => builder.readRange head tail range) builder)
  | .atEnd => .ok (builder.connect head .atEnd tail .normal none)
  | .group body => do
      let number := builder.groups.length
      let builder ← builder.declareGroup (← Group.inside number parent)
      builder.tagged number head tail fun builder first last =>
        builder.addRegex first last number body
  | .rep quantifier greed body => do
      let (first, last, builder) ← builder.twoStates
      let builder ← builder.addRegex first last parent body
      return builder.repetition quantifier greed head first last tail
  | .alt branches => builder.addBranches head tail parent .normal branches
  | .cat items => builder.addItems head tail parent items

/-- Lays out alternatives; all but the first are entered over low edges. -/
def addBranches (builder : Builder) (head tail : StateId) (parent : Nat) (priority : Priority) :
    List Regex → Except Fault Builder
  | [] => .ok builder
  | branch :: rest => do
      let (first, last, builder) ← builder.twoStates
      let builder ← builder.addRegex first last parent branch
      ((builder.epsilon head first priority).epsilon last tail .normal).addBranches
        head tail parent .low rest

/-- Lays out expressions one behind the other; without any, nothing lies between the states. -/
def addItems (builder : Builder) (head tail : StateId) (parent : Nat) :
    List Regex → Except Fault Builder
  | [] => .ok (builder.epsilon head tail .normal)
  | [last] => builder.addRegex head tail parent last
  | item :: next :: rest => do
      let (middle, builder) ← builder.state
      let builder ← builder.addRegex head middle parent item
      builder.addItems middle tail parent (next :: rest)

end

/-- Any characters, as few as possible before a match and as many as possible after it. -/
def addFiller (builder : Builder) (head tail : StateId) (greed : Greed) : Except Fault Builder :=
  builder.addRegex head tail 0 (.rep .star greed .any)

end Builder

/-- The automaton of an expression, whose group 0 spans the match. -/
def Regex.automaton (regex : Regex) (anchor : Anchor) : Except Fault Automaton := do
  let (head, tail, builder) ← Builder.empty.twoStates
  let builder ← builder.setInitial head
  let builder ← builder.setAccept tail
  let builder ← builder.declareGroup .entireMatch
  let entireMatch := fun (builder : Builder) (head tail : StateId) =>
    builder.tagged 0 head tail fun builder first last => builder.addRegex first last 0 regex
  match anchor with
  | .full =>
      let builder ← entireMatch builder head tail
      builder.build
  | .search =>
      let (first, last, builder) ← builder.twoStates
      let builder ← builder.addFiller head first .lazy
      let builder ← entireMatch builder first last
      let builder ← builder.addFiller last tail .greedy
      builder.build

end TaggedRegex
