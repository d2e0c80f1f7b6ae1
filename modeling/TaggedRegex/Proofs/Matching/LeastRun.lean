import Mathlib
import TaggedRegex.Proofs.Language.Traversal
import TaggedRegex.Proofs.Matching.Expression
import TaggedRegex.Proofs.Trail.LeastRun

set_option autoImplicit false

/-!
What a matcher reports is what the least run crosses, for every expression, whether or not its loops
can go around without reading anything.
-/

namespace TaggedRegex

variable {automaton : Automaton} {connections : List Connection} {regex : Regex}

/-- A completion of the whole input matches the expression against all of it, with the marks that
it crosses. -/
theorem Automaton.Lays.marks (lays : automaton.Lays connections regex) {input : List Char}
    {trail : Trail} (completes : automaton.Completes input 0 automaton.initial trail) :
    regex.Marks 0 0 input [] trail.marks := by
  obtain ⟨word, behind, passage, later, rfl, marks, rfl, -, atAccept⟩ :=
    Regex.traverses lays.draws regex lays.lays completes
  obtain ⟨rfl, rfl⟩ := lays.draws.completes_accept lays.stops atAccept
  rw [List.append_nil, List.append_nil]
  exact marks

theorem Automaton.Lays.traversed (lays : automaton.Lays connections regex) {input : List Char}
    {trail : Trail} (completes : automaton.Completes input 0 automaton.initial trail) :
    regex.Spells input [] ∧ trail.Balanced := by
  have marks := lays.marks completes
  rw [Trail.balanced_iff_marks]
  exact ⟨marks.spells, marks.balanced⟩

/-- All other runs come after this one at the first edge in which they differ from it. -/
def Automaton.IsLeastRun (automaton : Automaton) (input : List Char) (run : Trail) : Prop :=
  automaton.IsRun input run ∧
    ∀ other, automaton.IsRun input other → other ≠ run → run.Precedes other

/-- What is reported: no match if there is no run, and otherwise the spans on the least run. -/
theorem Automaton.Orderly.report_cases (orderly : automaton.Orderly) {input : List Char}
    {result : MatchResult} (reported : result.histories? = automaton.report input) :
    (result = .noMatch ∧ ¬ ∃ run, automaton.IsRun input run) ∨
      ∃ captures run, result = .matched captures ∧ automaton.IsLeastRun input run ∧
        captures.groups = automaton.groups.map run.spans := by
  have least := winner?_least orderly input
  rw [report] at reported
  cases won : automaton.winner? input with
  | none =>
    rw [won] at least reported
    have noRun : ¬ ∃ run, automaton.IsRun input run := by
      rintro ⟨run, isRun⟩
      exact least run isRun
    exact Or.inl ⟨MatchResult.histories?_injective reported, noRun⟩
  | some winner =>
    rw [won] at least reported
    right
    cases result with
    | noMatch => cases reported
    | matched captures =>
      refine ⟨captures, winner.trail, rfl, ⟨least.1, ?_⟩, Option.some.inj reported⟩
      intro other isRun different
      rcases least.2 other isRun with same | precedes
      · exact absurd same.symm different
      · exact precedes

/-- On every input a new matcher reports no match if there is no run, and otherwise, for every
group, where the least run crosses its tags; each start tag has its end tag. -/
theorem Regex.matchOnce_least_run (regex : Regex) (config : Config) (input : String)
    (enough : regex.NamesSuffice config input) :
    ∃ automaton result, regex.automaton config.anchor = .ok automaton ∧
      automaton.groups.map Group.number = List.range (regex.groupCount + 1) ∧
      regex.matchOnce config input = .ok result ∧
      (result = .noMatch ↔ ¬ ∃ run, automaton.IsRun input.toList run) ∧
      ∀ captures, result = .matched captures → ∃ run, automaton.IsLeastRun input.toList run ∧
        run.Balanced ∧ captures.groups = automaton.groups.map run.spans := by
  rcases matchOnce_spec enough with
    ⟨automaton, connections, result, built, lays, numbers, success, reported⟩
  refine ⟨automaton, result, built, numbers, success, ?_⟩
  rcases lays.orderly.report_cases reported with
    ⟨rfl, noRun⟩ | ⟨captures, run, rfl, least, spans⟩
  · refine ⟨⟨fun _ => noRun, fun _ => rfl⟩, ?_⟩
    intro captures same
    cases same
  · constructor
    · constructor
      · intro same
        cases same
      · intro noRun
        exact absurd ⟨run, least.1⟩ noRun
    · intro others same
      cases same
      exact ⟨run, least, (lays.traversed least.1.completes).2, spans⟩

/-- A loop whose body may read nothing. -/
def Regex.loopInLoop : Regex := .rep .star .greedy (.group (.rep .star .greedy (.lit 'a')))

theorem Regex.matchOnce_least_run_nullable_loop :
    ∃ automaton captures run, loopInLoop.automaton .search = .ok automaton ∧
      automaton.groups.map Group.number = List.range 2 ∧
      loopInLoop.matchOnce ⟨.search, true⟩ "ab" = .ok (.matched captures) ∧
      captures.groups = [[⟨0, 0⟩], [⟨0, 0⟩]] ∧ automaton.IsLeastRun "ab".toList run ∧
      run.Balanced ∧ captures.groups = automaton.groups.map run.spans := by
  have outcome : (loopInLoop.matchOnce ⟨.search, true⟩ "ab").map MatchResult.histories? =
      .ok (some [[⟨0, 0⟩], [⟨0, 0⟩]]) := by cbv
  obtain ⟨automaton, result, compiled, numbers, success, -, found⟩ :=
    Regex.matchOnce_least_run loopInLoop ⟨.search, true⟩ "ab" (namesSuffice_of_map_eq_ok outcome)
  rw [success] at outcome
  obtain ⟨captures, rfl, spans⟩ := MatchResult.exists_captures (Except.ok.inj outcome)
  obtain ⟨run, least, balanced, groups⟩ := found captures rfl
  exact ⟨automaton, captures, run, compiled, numbers, success, spans, least, balanced, groups⟩

end TaggedRegex
