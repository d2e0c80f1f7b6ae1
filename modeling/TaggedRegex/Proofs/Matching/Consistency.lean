import TaggedRegex.Proofs.Determinised.Merging
import TaggedRegex.Proofs.Determinised.Table
import TaggedRegex.Proofs.Trail.Reading

set_option autoImplicit false

/-!
What a matcher knows is true. Every transition, dead end and acceptance that it has kept was
computed for one input and holds for all of them; whatever it adds keeps this so.
-/

namespace TaggedRegex

/-- No walker on the threads survives the step, whatever it has been through. -/
def LeadsNowhere (automaton : Automaton) (step : Step) (source : List Thread) : Prop :=
  ∀ (memory : Memory) (consumed : Nat) (walkers : List Walker),
    Carries automaton memory source walkers → Walker.advance automaton step consumed walkers = []

/-- How an input ends on the threads: the histories of the acceptance bear the trail of the winner,
or nobody wins. -/
def EndsIn (automaton : Automaton) (source : List Thread) (found : Option Acceptance) : Prop :=
  ∀ (memory : Memory) (consumed : Nat) (walkers : List Walker),
    Carries automaton memory source walkers →
    match found with
    | none => Walker.winner? automaton walkers consumed = none
    | some acceptance => acceptance.histories.length = automaton.tags.length ∧
        ∃ after winner,
          memory.performAll ((consumed : Int) - 1) acceptance.instructions = .ok after ∧
          Walker.winner? automaton walkers consumed = some winner ∧
          Bears automaton after acceptance.histories winner.trail

namespace Matcher

/-- The threads of a state. -/
def HasState (matcher : Matcher) (index : Nat) (threads : List Thread) : Prop :=
  ∃ configuration, matcher.registry.get? index = some configuration ∧
    configuration.threads = threads

/-- The transition is right on every character of its range, which is a part of the alphabet. -/
structure Faithful (matcher : Matcher) (transition : Transition) : Prop where
  part : ∃ c, matcher.alphabet.find? c = some transition.range
  leads : ∃ source target, matcher.HasState transition.source source ∧
    matcher.HasState transition.target target ∧
    ∀ c ∈ transition.range,
      LeadsTo matcher.automaton (.char c) source transition.instructions target

/-- Where matching begins. -/
def Begins (matcher : Matcher) : Prop :=
  match matcher.start with
  | none => Walker.begun matcher.automaton = []
  | some (index, instructions) => ∃ threads memory, matcher.HasState index threads ∧
      (Memory.ofBlank matcher.initial).performAll (-1) instructions = .ok memory ∧
      Carries matcher.automaton memory threads (Walker.begun matcher.automaton)

/-- All that the matcher has kept is right. -/
structure Consistent (matcher : Matcher) : Prop where
  tagged : matcher.automaton.WellTagged
  alphabet : matcher.alphabet = .ofRanges matcher.automaton.inputRanges
  waiting : matcher.scratch.index < matcher.supply.issued
  named : ∀ index configuration, matcher.registry.get? index = some configuration →
    configuration.WellNamed matcher.automaton matcher.scratch matcher.supply
  sorted : matcher.table.Sorted
  faithful : ∀ transition ∈ matcher.table.transitions, matcher.Faithful transition
  dead : ∀ source range, (source, range) ∈ matcher.dead → ∃ threads,
    matcher.HasState source threads ∧
      ∀ c ∈ range, LeadsNowhere matcher.automaton (.char c) threads
  begins : matcher.Begins
  ends : ∀ state found, (state, found) ∈ matcher.acceptances → ∃ threads,
    matcher.HasState state threads ∧ EndsIn matcher.automaton threads found

theorem HasState.unique {matcher : Matcher} {index : Nat} {first second : List Thread}
    (left : matcher.HasState index first) (right : matcher.HasState index second) :
    first = second := by
  rcases left with ⟨configuration, registered, rfl⟩
  rcases right with ⟨other, same, rfl⟩
  rw [Option.some.inj (registered.symm.trans same)]

/-- A transition stays faithful as long as the states do not change. -/
theorem Faithful.keep {matcher later : Matcher} {transition : Transition}
    (faithful : matcher.Faithful transition) (alphabet : later.alphabet = matcher.alphabet)
    (automaton : later.automaton = matcher.automaton)
    (kept : ∀ {index : Nat} {threads : List Thread}, matcher.HasState index threads →
      later.HasState index threads) : later.Faithful transition := by
  rcases faithful.leads with ⟨source, target, hasSource, hasTarget, leads⟩
  refine ⟨?_, source, target, kept hasSource, kept hasTarget, ?_⟩
  · rw [alphabet]
    exact faithful.part
  · rw [automaton]
    exact leads

/-- More names may be handed out and more states registered. -/
theorem Consistent.extend {matcher : Matcher} (consistent : matcher.Consistent) {supply : Supply}
    {registry : Registry} (le : matcher.supply.issued ≤ supply.issued)
    (keeps : ∀ index configuration, matcher.registry.get? index = some configuration →
      registry.get? index = some configuration)
    (named : ∀ index configuration, registry.get? index = some configuration →
      configuration.WellNamed matcher.automaton matcher.scratch supply) :
    ({ matcher with supply, registry } : Matcher).Consistent := by
  have kept : ∀ {index : Nat} {threads : List Thread}, matcher.HasState index threads →
      ({ matcher with supply, registry } : Matcher).HasState index threads := by
    intro index threads has
    rcases has with ⟨configuration, registered, same⟩
    exact ⟨configuration, keeps index configuration registered, same⟩
  refine ⟨consistent.tagged, consistent.alphabet, Nat.lt_of_lt_of_le consistent.waiting le, named,
    consistent.sorted, ?_, ?_, ?_, ?_⟩
  · intro transition member
    exact (consistent.faithful transition member).keep rfl rfl kept
  · intro source range member
    rcases consistent.dead source range member with ⟨threads, has, nowhere⟩
    exact ⟨threads, kept has, nowhere⟩
  · have begins := consistent.begins
    unfold Begins at begins ⊢
    dsimp only
    cases start : matcher.start with
    | none =>
      rw [start] at begins
      exact begins
    | some first =>
      rw [start] at begins
      rcases begins with ⟨threads, memory, has, runs, carries⟩
      exact ⟨threads, memory, kept has, runs, carries⟩
  · intro state found member
    rcases consistent.ends state found member with ⟨threads, has, ends⟩
    exact ⟨threads, kept has, ends⟩

/-- A matcher with a larger supply keeps what it knows. -/
theorem Consistent.withSupply {matcher : Matcher} (consistent : matcher.Consistent)
    {supply : Supply} (le : matcher.supply.issued ≤ supply.issued) :
    ({ matcher with supply } : Matcher).Consistent :=
  consistent.extend le (fun _ _ registered => registered)
    fun index configuration registered => (consistent.named index configuration registered).mono le

/-- Locating a configuration, whether a known one takes its place or it is registered, adds copies
that lead to the state that is found. -/
theorem locate_spec {matcher : Matcher} (consistent : matcher.Consistent)
    {candidate : Configuration}
    (named : candidate.WellNamed matcher.automaton matcher.scratch matcher.supply) :
    ∃ index copies registry threads,
      matcher.locate candidate = (index, copies, { matcher with registry }) ∧
      ({ matcher with registry } : Matcher).Consistent ∧
      (∀ place configuration, matcher.registry.get? place = some configuration →
        registry.get? place = some configuration) ∧
      ({ matcher with registry } : Matcher).HasState index threads ∧
      ∀ step source instructions,
        LeadsTo matcher.automaton step source instructions candidate.threads →
        LeadsTo matcher.automaton step source (instructions ++ copies) threads := by
  unfold locate
  cases sought : if matcher.merge then matcher.registry.findRenaming? candidate else none with
  | some found =>
    obtain ⟨index, pairing⟩ := found
    have listed : matcher.registry.findRenaming? candidate = some (index, pairing) := by
      split at sought
      · exact sought
      · cases sought
    rcases Registry.findRenaming?_eq_some listed with ⟨target, registered, keys, onto⟩
    refine ⟨index, _, matcher.registry, target.threads, rfl, consistent,
      fun _ _ present => present, ⟨target, registered, rfl⟩, ?_⟩
    intro step source instructions leads
    exact leads.merge named (consistent.named index target registered) keys onto
  | none =>
    have inside : ∀ place configuration, matcher.registry.get? place = some configuration →
        place ≠ matcher.registry.configurations.size := by
      intro place configuration registered
      exact Nat.ne_of_lt (Array.getElem?_eq_some_iff.1 registered).1
    have keeps : ∀ place configuration, matcher.registry.get? place = some configuration →
        (matcher.registry.register candidate).2.get? place = some configuration := by
      intro place configuration registered
      rw [Registry.get?_register, if_neg (inside place configuration registered)]
      exact registered
    refine ⟨_, [], (matcher.registry.register candidate).2, candidate.threads, rfl,
      consistent.extend (Nat.le_refl _) keeps ?_, keeps, ⟨candidate, ?_, rfl⟩, ?_⟩
    · intro place configuration registered
      rw [Registry.get?_register] at registered
      split at registered
      · rw [← Option.some.inj registered]
        exact named
      · exact consistent.named place configuration registered
    · show (matcher.registry.register candidate).2.get? matcher.registry.configurations.size = _
      rw [Registry.get?_register, if_pos rfl]
    · intro step source instructions leads
      rw [List.append_nil]
      exact leads

/-- What holds for one character of a part holds for all of them. -/
theorem leadsTo_of_part {automaton : Automaton} {part : CharRange} {c d : Char}
    (found : (Alphabet.ofRanges automaton.inputRanges).find? c = some part) (inside : d ∈ part)
    {source target : List Thread} {instructions : List Instruction}
    (leads : LeadsTo automaton (.char c) source instructions target) :
    LeadsTo automaton (.char d) source instructions target := by
  intro memory consumed walkers carries
  rw [Walker.advance_char_congr found inside]
  exact leads memory consumed walkers carries

theorem leadsNowhere_of_part {automaton : Automaton} {part : CharRange} {c d : Char}
    (found : (Alphabet.ofRanges automaton.inputRanges).find? c = some part) (inside : d ∈ part)
    {source : List Thread} (nowhere : LeadsNowhere automaton (.char c) source) :
    LeadsNowhere automaton (.char d) source := by
  intro memory consumed walkers carries
  rw [Walker.advance_char_congr found inside]
  exact nowhere memory consumed walkers carries

/-- A new transition shares no character with the kept ones: their ranges are parts of one
alphabet. -/
theorem disjoint_of_missing {matcher : Matcher} (consistent : matcher.Consistent) {source : Nat}
    {c : Char} {range : CharRange} (missing : matcher.table.get? source c = none)
    (found : matcher.alphabet.find? c = some range) (target : Nat)
    (instructions : List Instruction) :
    ∀ other ∈ matcher.table.transitions,
      Transition.disjoint ⟨source, range, target, instructions⟩ other = true := by
  intro other member
  rw [Transition.disjoint_iff]
  dsimp only
  by_cases different : source ≠ other.source
  · exact Or.inl different
  · right
    rw [ne_eq, not_not] at different
    by_contra overlap
    rw [not_or, Char.not_lt, Char.not_lt] at overlap
    rcases (consistent.faithful other member).part with ⟨d, otherFound⟩
    have shared : ∀ e : Char, e ∈ range → e ∈ other.range → False := by
      intro e inRange inOther
      rw [consistent.alphabet] at found otherFound
      have first := Alphabet.find?_eq_of_mem found inRange
      have second := Alphabet.find?_eq_of_mem otherFound inOther
      have same : range = other.range := Option.some.inj (first.symm.trans second)
      have cInside := Alphabet.mem_of_find? _ _ _ found
      rw [same] at cInside
      have known := consistent.sorted.get?_eq_some member cInside
      rw [← different, missing] at known
      cases known
    rcases Char.le_total range.lo other.range.lo with lower | lower
    · exact shared other.range.lo ⟨lower, overlap.1⟩ other.range.lo_mem
    · exact shared range.lo range.lo_mem ⟨lower, overlap.2⟩

end Matcher

end TaggedRegex
