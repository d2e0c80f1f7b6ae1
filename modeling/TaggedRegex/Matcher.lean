import TaggedRegex.Capture.Match
import TaggedRegex.CharRange.Alphabet
import TaggedRegex.Determinised.Closure
import TaggedRegex.Determinised.Registry
import TaggedRegex.Determinised.Table
import TaggedRegex.History.Memory

set_option autoImplicit false

/-!
Matching with an automaton that is determinised while inputs are read. A matcher is a value: each
input gives a result and the matcher with the transitions that the input needed, which are kept for
later inputs.
-/

namespace TaggedRegex

/-- How a match ends: what is done to the histories, and the histories of the accepting thread. -/
structure Acceptance where
  instructions : List Instruction
  histories : List HistoryId
  deriving DecidableEq

structure Matcher where
  automaton : Automaton
  /-- Whether a configuration that can be renamed into a known one is replaced by it. -/
  merge : Bool
  alphabet : Alphabet
  supply : Supply
  /-- The histories of the tags before anything is read. -/
  initial : List HistoryId
  /-- The history in which a value waits while others are exchanged. -/
  scratch : HistoryId
  registry : Registry
  table : Table
  /-- The states and parts of the alphabet known to lead nowhere. -/
  dead : List (Nat × CharRange)
  /-- Where matching begins, if it can begin at all. -/
  start : Option (Nat × List Instruction)
  /-- For each state at which an input has ended, how a match ends there, if it does. -/
  acceptances : List (Nat × Option Acceptance)

namespace Matcher

/-- A matcher that has not read anything yet. -/
def ofAutomaton (automaton : Automaton) (merge : Bool) : Except Fault Matcher := do
  let (initial, supply) ← Supply.empty.freshHistories automaton.tags.length
  let (scratch, supply) ← supply.freshHistory
  let seed := Configuration.ofThreads [⟨automaton.initial, initial⟩]
  let (reached, supply) ← Closure.advance automaton seed .start supply
  let blank : Matcher :=
    { automaton, merge, initial, scratch, supply
      alphabet := .ofRanges automaton.inputRanges
      registry := .empty
      table := .empty
      dead := []
      start := none
      acceptances := [] }
  match reached with
  | none => return blank
  | some (configuration, instructions) =>
      let (index, registry) := Registry.empty.register configuration
      return { blank with registry, start := some (index, instructions) }

/-- The number of a configuration, which is registered if it is new, and the instructions that take
its histories to those of the registered one. -/
def locate (matcher : Matcher) (configuration : Configuration) :
    Nat × List Instruction × Matcher :=
  let known := if matcher.merge then matcher.registry.findRenaming? configuration else none
  match known with
  | some (index, pairing) => (index, pairing.instructions matcher.scratch, matcher)
  | none =>
      let (index, registry) := matcher.registry.register configuration
      (index, [], { matcher with registry })

/-- Computes the transition out of a state over the part of the alphabet around `c`. -/
def compute (matcher : Matcher) (source : Nat) (c : Char) (range : CharRange) :
    Except Fault (Option Transition × Matcher) := do
  let configuration ← matcher.registry.get source
  let (reached, supply) ← Closure.advance matcher.automaton configuration (.char c) matcher.supply
  let matcher := { matcher with supply }
  match reached with
  | none => return (none, { matcher with dead := (source, range) :: matcher.dead })
  | some (configuration, instructions) =>
      let (target, copies, matcher) := matcher.locate configuration
      let transition : Transition := ⟨source, range, target, instructions ++ copies⟩
      let (_, table) ← matcher.table.insert transition
      return (some transition, { matcher with table })

/-- The transition out of a state on `c`, computed if it has not been needed before. -/
def transition (matcher : Matcher) (source : Nat) (c : Char) :
    Except Fault (Option Transition × Matcher) :=
  match matcher.table.get? source c with
  | some transition => .ok (some transition, matcher)
  | none =>
      match matcher.alphabet.find? c with
      | none => .ok (none, matcher)
      | some range =>
          if (source, range) ∈ matcher.dead then .ok (none, matcher)
          else matcher.compute source c range

/-- Follows the characters of an input, of which the first is at `position`. The result is the last
state and the histories, unless a character leads nowhere. -/
def follow (matcher : Matcher) (state : Nat) (memory : Memory) (position : Int) :
    List Char → Except Fault (Option (Nat × Memory) × Matcher)
  | [] => .ok (some (state, memory), matcher)
  | c :: rest =>
      match matcher.transition state c with
      | .error fault => .error fault
      | .ok (none, matcher) => .ok (none, matcher)
      | .ok (some transition, matcher) =>
          match memory.performAll position transition.instructions with
          | .error fault => .error fault
          | .ok memory => matcher.follow transition.target memory (position + 1) rest

/-- How a match ends in a state, computed if no input has ended there before. -/
def acceptance (matcher : Matcher) (state : Nat) : Except Fault (Option Acceptance × Matcher) :=
  match matcher.acceptances.lookup state with
  | some known => .ok (known, matcher)
  | none => do
      let configuration ← matcher.registry.get state
      let (reached, supply) ←
        Closure.advance matcher.automaton configuration .finish matcher.supply
      let found := reached.bind fun (configuration, instructions) =>
        (configuration.historiesOf? matcher.automaton.accept).map fun histories =>
          Acceptance.mk instructions histories
      return (found,
        { matcher with supply, acceptances := (state, found) :: matcher.acceptances })

/-- The positions committed for a tag, oldest first. -/
def positions (automaton : Automaton) (memory : Memory) (histories : List HistoryId) (tag : Tag) :
    Except Fault (List Int) :=
  match automaton.slot? tag with
  | none => .error (.tagWithoutSlot tag)
  | some slot =>
      match histories[slot]? with
      | none => .error (.outOfBounds slot histories.length)
      | some history => (memory.committed history).map List.reverse

/-- The spans of a group: each beginning with the end that belongs to it. -/
def spans (automaton : Automaton) (memory : Memory) (histories : List HistoryId) (group : Group) :
    Except Fault (List Span) := do
  let firsts ← positions automaton memory histories group.startTag
  let lasts ← positions automaton memory histories group.endTag
  return (firsts.zip lasts).map fun (first, last) => ⟨first, last⟩

/-- Ends a match in a state, with `position` the place of the last character. -/
def conclude (matcher : Matcher) (state : Nat) (memory : Memory) (position : Int) :
    Except Fault (MatchResult × Matcher) := do
  let (found, matcher) ← matcher.acceptance state
  match found with
  | none => return (.noMatch, matcher)
  | some acceptance =>
      let memory ← memory.performAll position acceptance.instructions
      let groups ← matcher.automaton.groups.mapM
        (spans matcher.automaton memory acceptance.histories)
      let captures ← Captures.ofGroups groups
      return (.matched captures, matcher)

/-- Matches one input. -/
def matchInput (matcher : Matcher) (input : String) : Except Fault (MatchResult × Matcher) :=
  match matcher.start with
  | none => .ok (.noMatch, matcher)
  | some (state, instructions) => do
      let memory ← (Memory.ofBlank matcher.initial).performAll (-1) instructions
      let (reached, matcher) ← matcher.follow state memory 0 input.toList
      match reached with
      | none => return (.noMatch, matcher)
      | some (state, memory) => matcher.conclude state memory ((input.toList.length : Int) - 1)

/-- Matches inputs one after the other with what the earlier ones left behind. -/
def matchInputs (matcher : Matcher) : List String → Except Fault (List MatchResult × Matcher)
  | [] => .ok ([], matcher)
  | input :: rest => do
      let (result, matcher) ← matcher.matchInput input
      let (results, matcher) ← matcher.matchInputs rest
      return (result :: results, matcher)

/-- The number of groups, the entire match counted. -/
def groupCount (matcher : Matcher) : Nat := matcher.automaton.groups.length

/-- The number of configurations found so far. -/
def stateCount (matcher : Matcher) : Nat := matcher.registry.configurations.size

/-- The number of transitions compiled so far. -/
def tableSize (matcher : Matcher) : Nat := matcher.table.transitions.size

end Matcher

end TaggedRegex
