import TaggedRegex.Proofs.Matching.Refinement

set_option autoImplicit false

/-!
The end of a match. Matching an input leaves a memory and the histories of the accepting thread;
they hold what the walker that wins has crossed.
-/

namespace TaggedRegex

namespace Matcher

/-- The histories with which a match ends in a state, and the memory in which they stand. -/
def ending (matcher : Matcher) (state : Nat) (memory : Memory) (position : Int) :
    Except Fault (Option (Memory × List HistoryId) × Matcher) := do
  let (found, matcher) ← matcher.acceptance state
  match found with
  | none => return (none, matcher)
  | some acceptance =>
      let memory ← memory.performAll position acceptance.instructions
      return (some (memory, acceptance.histories), matcher)

/-- The histories of the accepting thread once the input has been read, and their memory, if the
input matches. -/
def conclusion (matcher : Matcher) (input : String) :
    Except Fault (Option (Memory × List HistoryId) × Matcher) :=
  match matcher.start with
  | none => .ok (none, matcher)
  | some (state, instructions) => do
      let memory ← (Memory.ofBlank matcher.initial).performAll (-1) instructions
      let (reached, matcher) ← matcher.follow state memory 0 input.toList
      match reached with
      | none => return (none, matcher)
      | some (state, memory) => matcher.ending state memory ((input.toList.length : Int) - 1)

/-- The result that reports what the histories hold. -/
def account : Option (Memory × List HistoryId) × Matcher → Except Fault (MatchResult × Matcher)
  | (none, matcher) => .ok (.noMatch, matcher)
  | (some (memory, histories), matcher) => do
      let groups ← matcher.automaton.groups.mapM (spans matcher.automaton memory histories)
      let captures ← Captures.ofGroups groups
      return (.matched captures, matcher)

theorem conclude_eq (matcher : Matcher) (state : Nat) (memory : Memory) (position : Int) :
    matcher.conclude state memory position = matcher.ending state memory position >>= account := by
  rw [conclude, ending]
  cases matcher.acceptance state with
  | error fault => rfl
  | ok outcome =>
    obtain ⟨found, later⟩ := outcome
    cases found with
    | none => rfl
    | some acceptance =>
      show (memory.performAll position acceptance.instructions >>= _) =
        (memory.performAll position acceptance.instructions >>= _) >>= account
      cases memory.performAll position acceptance.instructions <;> rfl

/-- Matching an input reports what its conclusion holds. -/
theorem matchInput_eq (matcher : Matcher) (input : String) :
    matcher.matchInput input = matcher.conclusion input >>= account := by
  rw [matchInput, conclusion]
  cases matcher.start with
  | none => rfl
  | some first =>
    obtain ⟨state, instructions⟩ := first
    dsimp only
    cases (Memory.ofBlank matcher.initial).performAll (-1) instructions with
    | error fault => rfl
    | ok memory =>
      show (matcher.follow state memory 0 input.toList >>= _) =
        (matcher.follow state memory 0 input.toList >>= _) >>= account
      cases matcher.follow state memory 0 input.toList with
      | error fault => rfl
      | ok outcome =>
        obtain ⟨reached, later⟩ := outcome
        cases reached with
        | none => rfl
        | some pair =>
          obtain ⟨last, after⟩ := pair
          exact later.conclude_eq last after ((input.toList.length : Int) - 1)

theorem positions_eq {automaton : Automaton} (tagged : automaton.WellTagged) {memory : Memory}
    {histories : List HistoryId} {trail : Trail}
    (length : histories.length = automaton.tags.length)
    (bears : Bears automaton memory histories trail) {tag : Tag}
    (member : tag ∈ automaton.tags) :
    positions automaton memory histories tag = .ok (trail.recorded tag).reverse := by
  rcases tagged.exists_slot member with ⟨slot, found, only⟩
  have tagAt := (only slot).2 rfl
  have inside : slot < histories.length := by
    rw [length]
    exact (List.getElem?_eq_some_iff.1 tagAt).1
  have at_slot : histories[slot]? = some histories[slot] := List.getElem?_eq_getElem inside
  have committed := Memory.committed_of_holds (bears slot tag _ tagAt at_slot)
  unfold positions
  simp only [found, at_slot, committed, Except.map]

/-- The histories hold what the winner has crossed; there are none if nobody wins. Everything that
is kept for the next input is right. -/
structure Concludes (matcher : Matcher) (winner : Option Walker)
    (concluded : Option (Memory × List HistoryId) × Matcher) : Prop where
  consistent : concluded.2.Consistent
  automaton : concluded.2.automaton = matcher.automaton
  bears : match concluded.1 with
    | none => winner = none
    | some (memory, histories) => histories.length = matcher.automaton.tags.length ∧
        ∃ walker, winner = some walker ∧ Bears matcher.automaton memory histories walker.trail

theorem ending_spec {matcher : Matcher} (consistent : matcher.Consistent) {state : Nat}
    {threads : List Thread} (has : matcher.HasState state threads) {memory : Memory}
    {walkers : List Walker} (carries : Carries matcher.automaton memory threads walkers)
    (consumed : Nat) :
    matcher.ending state memory ((consumed : Int) - 1) = .error .historiesExhausted ∨
      ∃ concluded, matcher.ending state memory ((consumed : Int) - 1) = .ok concluded ∧
        matcher.Concludes (Walker.winner? matcher.automaton walkers consumed) concluded := by
  obtain exhausted | ⟨found, later, success, laterConsistent, same, ends⟩ :=
    acceptance_spec consistent has
  · left
    rw [ending, exhausted]
    rfl
  · right
    have outcome := ends memory consumed walkers carries
    cases found with
    | none =>
      refine ⟨(none, later), ?_, laterConsistent, same, outcome⟩
      rw [ending, success]
      rfl
    | some acceptance =>
      obtain ⟨length, after, winner, runs, wins, bears⟩ := outcome
      refine ⟨(some (after, acceptance.histories), later), ?_, laterConsistent, same, length,
        winner, wins, bears⟩
      rw [ending, success]
      show (memory.performAll ((consumed : Int) - 1) acceptance.instructions >>= _) = _
      rw [runs]
      rfl

/-- A consistent matcher ends with the histories of the winner, unless it runs out of names. -/
theorem conclusion_spec {matcher : Matcher} (consistent : matcher.Consistent) (input : String) :
    matcher.conclusion input = .error .historiesExhausted ∨
      ∃ concluded, matcher.conclusion input = .ok concluded ∧
        matcher.Concludes (matcher.automaton.winner? input.toList) concluded := by
  have begins := consistent.begins
  unfold Begins at begins
  unfold conclusion
  cases start : matcher.start with
  | none =>
    rw [start] at begins
    right
    refine ⟨(none, matcher), rfl, consistent, rfl, ?_⟩
    show matcher.automaton.winner? input.toList = none
    rw [Automaton.winner?, begins, Walker.afterChars_nil]
    rfl
  | some first =>
    obtain ⟨state, instructions⟩ := first
    rw [start] at begins
    obtain ⟨threads, memory, has, runs, carries⟩ := begins
    dsimp only
    rw [runs]
    show (matcher.follow state memory ((0 : Nat) : Int) input.toList >>= _) = _ ∨ _
    obtain exhausted | ⟨reached, next, success, follows⟩ :=
      follow_spec input.toList consistent has carries 0
    · left
      rw [exhausted]
      rfl
    · have carried := follows.carries
      cases reached with
      | none =>
        right
        refine ⟨(none, next), ?_, follows.consistent, follows.automaton, ?_⟩
        · show (matcher.follow state memory ((0 : Nat) : Int) input.toList >>= _) = _
          rw [success]
          rfl
        · dsimp only at carried
          show matcher.automaton.winner? input.toList = none
          rw [Automaton.winner?, carried]
          rfl
      | some pair =>
        obtain ⟨last, after⟩ := pair
        obtain ⟨others, hasOthers, carries'⟩ := carried
        rw [← follows.automaton] at carries'
        obtain exhausted | ⟨concluded, success', concludes⟩ :=
          ending_spec follows.consistent hasOthers carries' input.toList.length
        · left
          rw [success]
          exact exhausted
        · right
          rw [follows.automaton] at concludes
          refine ⟨concluded, ?_, concludes.consistent,
            concludes.automaton.trans follows.automaton, ?_⟩
          · show (matcher.follow state memory ((0 : Nat) : Int) input.toList >>= _) = _
            rw [success]
            exact success'
          · have bears := concludes.bears
            rw [follows.automaton] at bears
            exact bears

end Matcher

end TaggedRegex
