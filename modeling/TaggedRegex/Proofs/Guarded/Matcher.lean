import TaggedRegex.Proofs.Guarded.Arena
import TaggedRegex.Proofs.Guarded.Pairing
import TaggedRegex.Proofs.Guarded.Partition
import TaggedRegex.Proofs.Guarded.WorkLists

set_option autoImplicit false

/-!
Matching with a look at every condition that is relied upon. A guarded matcher keeps what makes the
matcher fast, the buckets and the work lists, and puts the histories of a match into an arena. It
stops as soon as something does not fit.
-/

namespace TaggedRegex

/-- A matcher with what it keeps on the side: for each key the numbers of its configurations, oldest
first, and the work lists of the last step. -/
structure GuardedMatcher where
  matcher : Matcher
  buckets : List (List StateId × List Nat)
  lists : WorkLists

/-- Adds the number of a configuration under its key. -/
def addToBucket (key : List StateId) (index : Nat) :
    List (List StateId × List Nat) → List (List StateId × List Nat)
  | [] => [(key, [index])]
  | (other, indices) :: rest =>
      if other = key then (other, indices ++ [index]) :: rest
      else (other, indices) :: addToBucket key index rest

namespace GuardedMatcher

def register (g : GuardedMatcher) (configuration : Configuration) : Nat × GuardedMatcher :=
  let (index, registry) := g.matcher.registry.register configuration
  (index,
    { g with
      matcher := { g.matcher with registry }
      buckets := addToBucket configuration.key index g.buckets })

/-- The first of the numbered configurations onto which the candidate can be renamed. -/
def firstMappable? (registry : Registry) (candidate : Configuration) :
    List Nat → Except Breach (Option (Nat × Pairing))
  | [] => .ok none
  | index :: rest =>
      match registry.get? index with
      | none => .error (.fault (.outOfBounds index registry.configurations.size))
      | some known =>
          match Pairing.between candidate known with
          | .error breach => .error breach
          | .ok (some pairing) => .ok (some (index, pairing))
          | .ok none => firstMappable? registry candidate rest

def findMappable? (g : GuardedMatcher) (candidate : Configuration) :
    Except Breach (Option (Nat × Pairing)) :=
  match g.buckets.lookup candidate.key with
  | none => .ok none
  | some indices => firstMappable? g.matcher.registry candidate indices

/-- The configuration that takes the candidate's place, if states are merged and there is one. -/
def substitute? (g : GuardedMatcher) (candidate : Configuration) :
    Except Breach (Option (Nat × Pairing)) :=
  if g.matcher.merge then g.findMappable? candidate else .ok none

def locate (g : GuardedMatcher) (configuration : Configuration) :
    Except Breach (Nat × List Instruction × GuardedMatcher) := do
  let known ← g.substitute? configuration
  match known with
  | some (index, pairing) =>
      let copies ← pairing.instructions g.matcher.scratch
      return (index, copies, g)
  | none =>
      let (index, g) := g.register configuration
      return (index, [], g)

def compute (g : GuardedMatcher) (source : Nat) (c : Char) (range : CharRange) :
    Except Breach (Option Transition × GuardedMatcher) := do
  let configuration ← guarded (g.matcher.registry.get source)
  let ((reached, supply), lists) ←
    WorkLists.advance g.matcher.automaton configuration (.char c) g.matcher.supply g.lists
  let g := { g with matcher := { g.matcher with supply }, lists }
  match reached with
  | none =>
      return (none,
        { g with matcher := { g.matcher with dead := (source, range) :: g.matcher.dead } })
  | some (configuration, instructions) =>
      let (target, copies, g) ← g.locate configuration
      let (place, table) ←
        guarded (g.matcher.table.insert ⟨source, range, target, instructions ++ copies⟩)
      let transition ← guarded (table.get place)
      return (some transition, { g with matcher := { g.matcher with table } })

/-- The transition is taken out of the table at the place where it was found or put. -/
def transition (g : GuardedMatcher) (source : Nat) (c : Char) :
    Except Breach (Option Transition × GuardedMatcher) :=
  match g.matcher.table.find? source c with
  | some place => do
      let transition ← guarded (g.matcher.table.get place)
      return (some transition, g)
  | none =>
      match g.matcher.alphabet.find? c with
      | none => .ok (none, g)
      | some range =>
          if g.matcher.dead.contains (source, range) then .ok (none, g)
          else g.compute source c range

def follow (g : GuardedMatcher) (state : Nat) (arena : Arena) (position : Int) :
    List Char → Except Breach (Option (Nat × Arena) × GuardedMatcher)
  | [] => .ok (some (state, arena), g)
  | c :: rest =>
      match g.transition state c with
      | .error breach => .error breach
      | .ok (none, g) => .ok (none, g)
      | .ok (some transition, g) =>
          match arena.performAll position transition.instructions with
          | .error breach => .error breach
          | .ok arena => g.follow transition.target arena (position + 1) rest

def acceptance (g : GuardedMatcher) (state : Nat) :
    Except Breach (Option Acceptance × GuardedMatcher) :=
  match g.matcher.acceptances.lookup state with
  | some known => .ok (known, g)
  | none => do
      let configuration ← guarded (g.matcher.registry.get state)
      let ((reached, supply), lists) ←
        WorkLists.advance g.matcher.automaton configuration .finish g.matcher.supply g.lists
      let found := reached.bind fun (configuration, instructions) =>
        (configuration.historiesOf? g.matcher.automaton.accept).map fun histories =>
          Acceptance.mk instructions histories
      return (found,
        { g with
          matcher := { g.matcher with
            supply, acceptances := (state, found) :: g.matcher.acceptances }
          lists })

def positions (automaton : Automaton) (arena : Arena) (histories : List HistoryId) (tag : Tag) :
    Except Breach (List Int) :=
  match automaton.slot? tag with
  | none => .error (.fault (.tagWithoutSlot tag))
  | some slot =>
      match histories[slot]? with
      | none => .error (.fault (.outOfBounds slot histories.length))
      | some history => (arena.committed history).map List.reverse

def spans (automaton : Automaton) (arena : Arena) (histories : List HistoryId) (group : Group) :
    Except Breach (List Span) := do
  let firsts ← positions automaton arena histories group.startTag
  let lasts ← positions automaton arena histories group.endTag
  return (firsts.zip lasts).map fun (first, last) => ⟨first, last⟩

def conclude (g : GuardedMatcher) (state : Nat) (arena : Arena) (position : Int) :
    Except Breach (MatchResult × GuardedMatcher) := do
  let (found, g) ← g.acceptance state
  match found with
  | none => return (.noMatch, g)
  | some acceptance =>
      let arena ← arena.performAll position acceptance.instructions
      let groups ← g.matcher.automaton.groups.mapM
        (spans g.matcher.automaton arena acceptance.histories)
      let captures ← guarded (Captures.ofGroups groups)
      return (.matched captures, g)

def matchInput (g : GuardedMatcher) (input : String) :
    Except Breach (MatchResult × GuardedMatcher) :=
  match g.matcher.start with
  | none => .ok (.noMatch, g)
  | some (state, instructions) => do
      let arena ← Arena.ofBlank g.matcher.initial
      let arena ← arena.performAll (-1) instructions
      let (reached, g) ← g.follow state arena 0 input.toList
      match reached with
      | none => return (.noMatch, g)
      | some (state, arena) => g.conclude state arena ((input.toList.length : Int) - 1)

def matchInputs (g : GuardedMatcher) :
    List String → Except Breach (List MatchResult × GuardedMatcher)
  | [] => .ok ([], g)
  | input :: rest => do
      let (result, g) ← g.matchInput input
      let (results, g) ← g.matchInputs rest
      return (result :: results, g)

/-- A guarded matcher that has not read anything yet. -/
def ofAutomaton (automaton : Automaton) (merge : Bool) : Except Breach GuardedMatcher := do
  let alphabet ← Alphabet.partition automaton.inputRanges
  let (initial, supply) ← guarded (Supply.empty.freshHistories automaton.tags.length)
  let (scratch, supply) ← guarded supply.freshHistory
  let seed := Configuration.ofThreads [⟨automaton.initial, initial⟩]
  let ((reached, supply), lists) ← WorkLists.advance automaton seed .start supply .empty
  let blank : GuardedMatcher :=
    { matcher :=
        { automaton, merge, initial, scratch, supply, alphabet
          registry := .empty
          table := .empty
          dead := []
          start := none
          acceptances := [] }
      buckets := []
      lists }
  match reached with
  | none => return blank
  | some (configuration, instructions) =>
      let (index, g) := blank.register configuration
      return { g with matcher := { g.matcher with start := some (index, instructions) } }

end GuardedMatcher

/-- The results of matching inputs one after the other with a new guarded matcher. -/
def Automaton.guardedResults (automaton : Automaton) (merge : Bool) (inputs : List String) :
    Except Breach (List MatchResult) := do
  let g ← GuardedMatcher.ofAutomaton automaton merge
  let (results, _) ← g.matchInputs inputs
  return results

end TaggedRegex
