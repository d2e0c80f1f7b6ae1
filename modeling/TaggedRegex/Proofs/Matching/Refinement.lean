import TaggedRegex.Proofs.Matching.Consistency

set_option autoImplicit false

/-!
A consistent matcher reports what the walkers find, for every input and whatever it has kept from
earlier inputs, and it stays consistent.
-/

namespace TaggedRegex

namespace Matcher

/-- The matcher has moved on to `later`, and what it found on a character is right. -/
structure Steps (matcher : Matcher) (threads : List Thread) (c : Char) (found : Option Transition)
    (later : Matcher) : Prop where
  consistent : later.Consistent
  automaton : later.automaton = matcher.automaton
  leads : match found with
    | none => LeadsNowhere matcher.automaton (.char c) threads
    | some transition => ∃ target, later.HasState transition.target target ∧
        LeadsTo matcher.automaton (.char c) threads transition.instructions target

theorem compute_spec {matcher : Matcher} (consistent : matcher.Consistent) {source : Nat}
    {c : Char} {range : CharRange} {threads : List Thread}
    (has : matcher.HasState source threads) (missing : matcher.table.get? source c = none)
    (found : matcher.alphabet.find? c = some range) :
    matcher.compute source c range = .error .historiesExhausted ∨
      ∃ result later, matcher.compute source c range = .ok (result, later) ∧
        matcher.Steps threads c result later := by
  rcases has with ⟨configuration, registered, rfl⟩
  have get : matcher.registry.get source = .ok configuration := by
    rw [Registry.get, registered]
  have inAlphabet := found
  rw [consistent.alphabet] at inAlphabet
  have named := consistent.named source configuration registered
  rcases Closure.advance_simulated (.char c) consistent.tagged named consistent.waiting
    (fun start => by cases start) with exhausted | ⟨reached, supply, success, le, effect⟩
  · left
    rw [compute, get]
    show (Closure.advance _ _ _ _ >>= _) = _
    rw [exhausted]
    rfl
  · right
    have grown := consistent.withSupply le
    cases reached with
    | none =>
      refine ⟨none, { matcher with supply, dead := (source, range) :: matcher.dead }, ?_, ?_, rfl,
        effect⟩
      · rw [compute, get]
        show (Closure.advance _ _ _ _ >>= _) = _
        rw [success]
        rfl
      · refine ⟨grown.tagged, grown.alphabet, grown.waiting, grown.named, grown.sorted,
          fun other old => (grown.faithful other old).keep rfl rfl id, ?_, grown.begins,
          grown.ends⟩
        intro place part member
        rcases List.mem_cons.1 member with same | old
        · obtain ⟨rfl, rfl⟩ := Prod.mk.inj same
          exact ⟨configuration.threads, ⟨configuration, registered, rfl⟩,
            fun d inside => leadsNowhere_of_part inAlphabet inside effect⟩
        · exact grown.dead place part old
    | some pair =>
      obtain ⟨candidate, instructions⟩ := pair
      rcases effect with ⟨candidateNamed, leads⟩
      rcases locate_spec grown candidateNamed with
        ⟨index, copies, registry, target, located, placed, keeps, hasTarget, onwards⟩
      have leads' := onwards (.char c) configuration.threads instructions leads
      let transition : Transition := ⟨source, range, index, instructions ++ copies⟩
      have apart := disjoint_of_missing placed missing found index
        (instructions ++ copies)
      rcases placed.sorted.insert apart with ⟨place, table, inserted, sorted, members⟩
      refine ⟨some transition, { matcher with supply, registry, table }, ?_, ?_, rfl, target,
        hasTarget, leads'⟩
      · rw [compute, get]
        show (Closure.advance _ _ _ _ >>= _) = _
        rw [success]
        simp only [bind, Except.bind, located, inserted]
        rfl
      · refine ⟨placed.tagged, placed.alphabet, placed.waiting, placed.named, sorted, ?_,
          placed.dead, placed.begins, placed.ends⟩
        intro other member
        rcases (members other).1 member with rfl | old
        · refine ⟨⟨c, found⟩, configuration.threads, target,
            ⟨configuration, keeps source configuration registered, rfl⟩, hasTarget, ?_⟩
          intro d inside
          exact leadsTo_of_part inAlphabet inside leads'
        · exact (placed.faithful other old).keep rfl rfl id

/-- Kept or computed, the transition on a character is right. -/
theorem transition_spec {matcher : Matcher} (consistent : matcher.Consistent) {source : Nat}
    {threads : List Thread} (has : matcher.HasState source threads) (c : Char) :
    matcher.transition source c = .error .historiesExhausted ∨
      ∃ result later, matcher.transition source c = .ok (result, later) ∧
        matcher.Steps threads c result later := by
  cases kept : matcher.table.get? source c with
  | some known =>
    right
    refine ⟨some known, matcher, ?_, consistent, rfl, ?_⟩
    · rw [transition, kept]
    · rcases Table.of_get?_eq_some kept with ⟨member, same, inside⟩
      rcases (consistent.faithful known member).leads with
        ⟨others, target, hasSource, hasTarget, leads⟩
      rw [same] at hasSource
      rw [has.unique hasSource]
      exact ⟨target, hasTarget, leads c inside⟩
  | none =>
    cases found : matcher.alphabet.find? c with
    | none =>
      right
      refine ⟨none, matcher, ?_, consistent, rfl, ?_⟩
      · rw [transition, kept, found]
      · intro memory consumed walkers carries
        rw [consistent.alphabet] at found
        exact Walker.advance_char_eq_nil found consumed walkers
    | some range =>
      have unfolded : matcher.transition source c =
          if (source, range) ∈ matcher.dead then .ok (none, matcher)
          else matcher.compute source c range := by
        rw [transition, kept, found]
      rw [unfolded]
      by_cases dead : (source, range) ∈ matcher.dead
      · right
        rw [if_pos dead]
        refine ⟨none, matcher, rfl, consistent, rfl, ?_⟩
        rcases consistent.dead source range dead with ⟨others, hasOthers, nowhere⟩
        rw [has.unique hasOthers]
        exact nowhere c (Alphabet.mem_of_find? _ _ _ found)
      · rw [if_neg dead]
        exact compute_spec consistent has kept found

/-- The matcher has followed some characters to where the walkers have got. -/
structure Follows (matcher : Matcher) (walkers : List Walker) (reached : Option (Nat × Memory))
    (later : Matcher) : Prop where
  consistent : later.Consistent
  automaton : later.automaton = matcher.automaton
  carries : match reached with
    | none => walkers = []
    | some (state, memory) => ∃ threads, later.HasState state threads ∧
        Carries matcher.automaton memory threads walkers

theorem follow_spec (input : List Char) {matcher : Matcher} (consistent : matcher.Consistent)
    {state : Nat} {threads : List Thread} (has : matcher.HasState state threads)
    {memory : Memory} {walkers : List Walker}
    (carries : Carries matcher.automaton memory threads walkers) (consumed : Nat) :
    matcher.follow state memory (consumed : Int) input = .error .historiesExhausted ∨
      ∃ reached later, matcher.follow state memory (consumed : Int) input = .ok (reached, later) ∧
        matcher.Follows (Walker.afterChars matcher.automaton walkers consumed input) reached
          later := by
  induction input generalizing matcher state threads memory walkers consumed with
  | nil => exact Or.inr ⟨_, matcher, rfl, consistent, rfl, threads, has, carries⟩
  | cons c rest ih =>
    rcases transition_spec consistent has c with exhausted | ⟨result, next, success, steps⟩
    · left
      rw [follow, exhausted]
    · rw [Walker.afterChars]
      cases result with
      | none =>
        right
        refine ⟨none, next, by rw [follow, success], steps.consistent, steps.automaton, ?_⟩
        have stuck := steps.leads memory (consumed + 1) walkers carries
        dsimp only
        rw [stuck, Walker.afterChars_nil]
      | some transition =>
        rcases steps.leads with ⟨target, hasTarget, leads⟩
        rcases leads memory (consumed + 1) walkers carries with ⟨after, runs, carries'⟩
        have position : ((consumed + 1 : Nat) : Int) - 1 = consumed := by omega
        rw [position] at runs
        have unfolded : matcher.follow state memory (consumed : Int) (c :: rest) =
            next.follow transition.target after ((consumed + 1 : Nat) : Int) rest := by
          rw [follow, success]
          dsimp only
          rw [runs]
          rfl
        rw [unfolded]
        rw [← steps.automaton] at carries'
        rcases ih steps.consistent hasTarget carries' (consumed + 1) with
          exhausted | ⟨reached, later, success', follows⟩
        · exact Or.inl exhausted
        · right
          rw [steps.automaton] at follows
          refine ⟨reached, later, success', follows.consistent,
            follows.automaton.trans steps.automaton, ?_⟩
          have carried := follows.carries
          rw [steps.automaton] at carried
          exact carried

/-- Kept or computed, the acceptance of a state is right. -/
theorem acceptance_spec {matcher : Matcher} (consistent : matcher.Consistent) {state : Nat}
    {threads : List Thread} (has : matcher.HasState state threads) :
    matcher.acceptance state = .error .historiesExhausted ∨
      ∃ found later, matcher.acceptance state = .ok (found, later) ∧ later.Consistent ∧
        later.automaton = matcher.automaton ∧ EndsIn matcher.automaton threads found := by
  cases kept : matcher.acceptances.lookup state with
  | some found =>
    right
    have member : (state, found) ∈ matcher.acceptances := by
      rcases List.lookup_eq_some_iff.1 kept with ⟨before, after, same, -⟩
      rw [same]
      simp
    rcases consistent.ends state found member with ⟨others, hasOthers, ends⟩
    rw [has.unique hasOthers]
    refine ⟨found, matcher, ?_, consistent, rfl, ends⟩
    rw [acceptance, kept]
  | none =>
    rcases has with ⟨configuration, registered, rfl⟩
    have get : matcher.registry.get state = .ok configuration := by
      rw [Registry.get, registered]
    have named := consistent.named state configuration registered
    rcases Closure.advance_simulated .finish consistent.tagged named consistent.waiting
      (fun start => by cases start) with exhausted | ⟨reached, supply, success, le, effect⟩
    · left
      rw [acceptance, kept]
      dsimp only
      rw [get]
      show (Closure.advance _ _ _ _ >>= _) = _
      rw [exhausted]
      rfl
    · right
      let found := reached.bind fun pair =>
        (pair.1.historiesOf? matcher.automaton.accept).map fun histories =>
          Acceptance.mk pair.2 histories
      have ends : EndsIn matcher.automaton configuration.threads found := by
        intro memory consumed walkers carries
        cases reached with
        | none =>
          show Walker.winner? _ _ _ = none
          rw [Walker.winner?, effect memory consumed walkers carries]
          rfl
        | some pair =>
          obtain ⟨target, instructions⟩ := pair
          rcases effect with ⟨targetNamed, leads⟩
          rcases leads memory consumed walkers carries with ⟨after, runs, carries'⟩
          have sought : found = (target.historiesOf? matcher.automaton.accept).map fun histories =>
            Acceptance.mk instructions histories := rfl
          rw [sought, Configuration.historiesOf?, Walker.winner?]
          rcases carries'.find? matcher.automaton.accept with
            ⟨noThread, noWalker⟩ | ⟨thread, winner, member, foundThread, foundWalker, bears⟩
          · rw [noThread]
            exact noWalker
          · rw [foundThread]
            exact ⟨(targetNamed.named thread member).length, after, winner, runs, foundWalker,
              bears⟩
      have grown := consistent.withSupply le
      refine ⟨found, { matcher with supply, acceptances := (state, found) :: matcher.acceptances },
        ?_, ?_, rfl, ends⟩
      · rw [acceptance, kept]
        dsimp only
        rw [get]
        show (Closure.advance _ _ _ _ >>= _) = _
        rw [success]
        rfl
      · refine ⟨grown.tagged, grown.alphabet, grown.waiting, grown.named, grown.sorted,
          fun other old => (grown.faithful other old).keep rfl rfl id, grown.dead, grown.begins,
          ?_⟩
        intro place known member
        rcases List.mem_cons.1 member with same | old
        · obtain ⟨rfl, rfl⟩ := Prod.mk.inj same
          exact ⟨configuration.threads, ⟨configuration, registered, rfl⟩, ends⟩
        · exact grown.ends place known old

end Matcher

end TaggedRegex
