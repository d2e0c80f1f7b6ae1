import TaggedRegex.Pattern
import TaggedRegex.Proofs.Automaton.Anchored
import TaggedRegex.Proofs.Matching.Report
import TaggedRegex.Proofs.Trail.Step

set_option autoImplicit false

/-!
Matching one input with a new matcher for an expression. Unless the names run out, the matcher
reports the trail of the walker that wins in the automaton of the expression.
-/

namespace TaggedRegex

namespace Regex

/-- The result of matching an input with a new matcher. -/
def matchOnce (regex : Regex) (config : Config) (input : String) : Except Fault MatchResult := do
  let matcher ← regex.matcher config
  let (result, _) ← matcher.matchInput input
  return result

/-- Compiling the expression and matching the input need no more names than there are. -/
def NamesSuffice (regex : Regex) (config : Config) (input : String) : Prop :=
  regex.matchOnce config input ≠ .error .statesExhausted ∧
    regex.matchOnce config input ≠ .error .historiesExhausted

theorem namesSuffice_of_isOk {regex : Regex} {config : Config} {input : String}
    (success : (regex.matchOnce config input).isOk = true) : regex.NamesSuffice config input :=
  ⟨Fault.ne_error_of_isOk success _, Fault.ne_error_of_isOk success _⟩

theorem namesSuffice_of_map_eq_ok {regex : Regex} {config : Config} {input : String} {α : Type}
    {view : MatchResult → α} {seen : α}
    (success : (regex.matchOnce config input).map view = .ok seen) :
    regex.NamesSuffice config input :=
  ⟨Fault.ne_error_of_map_eq_ok success _, Fault.ne_error_of_map_eq_ok success _⟩

/-- How a new matcher for the expression comes to its result. -/
structure Performs (regex : Regex) (config : Config) (input : String) (matcher : Matcher)
    (concluded : Option (Memory × List HistoryId) × Matcher) (result : MatchResult) : Prop where
  built : regex.automaton config.anchor = .ok matcher.automaton
  tagged : matcher.automaton.WellTagged
  numbers : matcher.automaton.groups.map Group.number = List.range (regex.groupCount + 1)
  made : regex.matcher config = .ok matcher
  conclusion : matcher.conclusion input = .ok concluded
  concludes : matcher.Concludes (matcher.automaton.winner? input.toList) concluded
  success : regex.matchOnce config input = .ok result
  reported : result.histories? = matcher.automaton.report input.toList

/-- A new matcher has an automaton in which the expression is laid out, and ends as its walkers
do. -/
theorem matchOnce_performs {regex : Regex} {config : Config} {input : String}
    (enough : regex.NamesSuffice config input) :
    ∃ matcher concluded result, regex.Performs config input matcher concluded result ∧
      ∃ connections, matcher.automaton.Lays connections (regex.anchored config.anchor) := by
  obtain exhausted | ⟨automaton, connections, built, lays, tagged, numbers⟩ :=
    regex.automaton_spec config.anchor
  · apply absurd _ enough.1
    rw [matchOnce, matcher, exhausted]
    rfl
  have nonempty : automaton.groups ≠ [] := by
    intro empty
    have lengths := congrArg List.length numbers
    rw [empty, List.map_nil, List.length_nil, List.length_range] at lengths
    omega
  have asMatcher : regex.matcher config = Matcher.ofAutomaton automaton config.merge := by
    rw [matcher, built]
    rfl
  obtain exhausted | ⟨matcher, made, consistent, rfl⟩ :=
    Matcher.ofAutomaton_spec tagged config.merge
  · apply absurd _ enough.2
    rw [matchOnce, asMatcher, exhausted]
    rfl
  rw [made] at asMatcher
  have unfolded : regex.matchOnce config input = (matcher.matchInput input).map Prod.fst := by
    rw [matchOnce, asMatcher]
    show (matcher.matchInput input >>= _) = _
    cases matcher.matchInput input <;> rfl
  obtain exhausted | ⟨result, later, success, answers⟩ :=
    Matcher.matchInput_spec consistent nonempty input
  · apply absurd _ enough.2
    rw [unfolded, exhausted]
    rfl
  obtain exhausted | ⟨concluded, ended, concludes⟩ := Matcher.conclusion_spec consistent input
  · rw [Matcher.matchInput_eq, exhausted] at success
    cases success
  refine ⟨matcher, concluded, result, ⟨built, tagged, numbers, asMatcher, ended, concludes, ?_,
    answers.histories⟩, connections, lays⟩
  rw [unfolded, success]
  rfl

/-- The matcher itself comes to the result. -/
theorem Performs.exists_later {regex : Regex} {config : Config} {input : String} {matcher : Matcher}
    {concluded : Option (Memory × List HistoryId) × Matcher} {result : MatchResult}
    (performs : regex.Performs config input matcher concluded result) :
    ∃ later, matcher.matchInput input = .ok (result, later) := by
  have success := performs.success
  rw [matchOnce, performs.made] at success
  change (matcher.matchInput input >>= _) = _ at success
  obtain ⟨⟨found, later⟩, matched, same⟩ := Fault.of_bind_eq_ok success
  obtain rfl : found = result := Except.ok.inj same
  exact ⟨later, matched⟩

/-- The expression lies in the automaton of the matcher. -/
theorem Performs.exists_sits {regex : Regex} {config : Config} {input : String} {matcher : Matcher}
    {concluded : Option (Memory × List HistoryId) × Matcher} {result : MatchResult}
    (performs : regex.Performs config input matcher concluded result) :
    ∃ connections, matcher.automaton.Sits connections regex config.anchor := by
  obtain exhausted | ⟨automaton, connections, built, sits⟩ := regex.automaton_sits config.anchor
  · rw [performs.built] at exhausted
    cases exhausted
  · obtain rfl := Except.ok.inj (performs.built.symm.trans built)
    exact ⟨connections, sits⟩

/-- There is no match if there is no winner. -/
theorem Performs.noMatch_iff {regex : Regex} {config : Config} {input : String} {matcher : Matcher}
    {concluded : Option (Memory × List HistoryId) × Matcher} {result : MatchResult}
    (performs : regex.Performs config input matcher concluded result) :
    result = .noMatch ↔ matcher.automaton.winner? input.toList = none := by
  have reported := performs.reported
  rw [Automaton.report] at reported
  constructor
  · rintro rfl
    exact Option.map_eq_none_iff.1 reported.symm
  · intro none
    rw [none] at reported
    exact MatchResult.histories?_injective reported

/-- With a match there is a winner, whose crossings the histories hold. -/
theorem Performs.exists_winner {regex : Regex} {config : Config} {input : String}
    {matcher : Matcher} {concluded : Option (Memory × List HistoryId) × Matcher}
    {captures : Captures} (performs : regex.Performs config input matcher concluded
      (.matched captures)) :
    ∃ winner memory histories later, matcher.automaton.winner? input.toList = some winner ∧
      captures.groups = matcher.automaton.groups.map winner.trail.spans ∧
      concluded = (some (memory, histories), later) ∧
      histories.length = matcher.automaton.tags.length ∧
      Bears matcher.automaton memory histories winner.trail := by
  have reported := performs.reported
  have bears := performs.concludes.bears
  rw [Automaton.report] at reported
  cases won : matcher.automaton.winner? input.toList with
  | none =>
    rw [won] at reported
    cases reported
  | some winner =>
    rw [won] at reported bears
    obtain ⟨found, later⟩ := concluded
    cases found with
    | none => cases bears
    | some pair =>
      obtain ⟨memory, histories⟩ := pair
      obtain ⟨length, walker, same, bears⟩ := bears
      obtain rfl : winner = walker := Option.some.inj same
      exact ⟨winner, memory, histories, later, rfl, Option.some.inj reported, rfl, length, bears⟩

/-- A new matcher reports the winner, in an automaton in which the expression is laid out. -/
theorem matchOnce_spec {regex : Regex} {config : Config} {input : String}
    (enough : regex.NamesSuffice config input) :
    ∃ automaton connections result, regex.automaton config.anchor = .ok automaton ∧
      automaton.Lays connections (regex.anchored config.anchor) ∧
      automaton.groups.map Group.number = List.range (regex.groupCount + 1) ∧
      regex.matchOnce config input = .ok result ∧
      result.histories? = automaton.report input.toList := by
  obtain ⟨matcher, concluded, result, performs, connections, lays⟩ := matchOnce_performs enough
  exact ⟨matcher.automaton, connections, result, performs.built, lays, performs.numbers,
    performs.success, performs.reported⟩

end Regex

end TaggedRegex
