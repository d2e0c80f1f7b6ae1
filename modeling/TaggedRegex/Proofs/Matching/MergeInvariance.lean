import Mathlib
import TaggedRegex.Proofs.Matching.Report

set_option autoImplicit false

/-!
Merging is sound: a matcher that replaces configurations by known ones reports what a matcher
reports that never does.
-/

namespace TaggedRegex

/-- The results of matching inputs one after the other with a new matcher. -/
def Automaton.results (automaton : Automaton) (merge : Bool) (inputs : List String) :
    Except Fault (List MatchResult) := do
  let matcher ← Matcher.ofAutomaton automaton merge
  let (results, _) ← matcher.matchInputs inputs
  return results

theorem Automaton.results_of_ofAutomaton {automaton : Automaton} {merge : Bool} {matcher : Matcher}
    (made : Matcher.ofAutomaton automaton merge = .ok matcher) (inputs : List String) :
    automaton.results merge inputs = (matcher.matchInputs inputs).map Prod.fst := by
  rw [results, made]
  show (matcher.matchInputs inputs >>= _) = _
  cases matcher.matchInputs inputs <;> rfl

namespace Matcher

theorem matchInputs_singleton (matcher : Matcher) (input : String) :
    matcher.matchInputs [input] =
      (matcher.matchInput input).map fun matched => ([matched.1], matched.2) := by
  rw [matchInputs]
  cases matcher.matchInput input <;> rfl

/-- Matching inputs one after the other, the first ones and then the others. -/
theorem matchInputs_append (matcher : Matcher) (first second : List String) :
    matcher.matchInputs (first ++ second) =
      (matcher.matchInputs first).bind fun early =>
        (early.2.matchInputs second).map fun late => (early.1 ++ late.1, late.2) := by
  induction first generalizing matcher with
  | nil =>
    show matcher.matchInputs second = (matcher.matchInputs second).map _
    cases matcher.matchInputs second <;> rfl
  | cons input rest ih =>
    rw [List.cons_append, matchInputs, matchInputs]
    cases matcher.matchInput input with
    | error fault => rfl
    | ok matched =>
      show (matched.2.matchInputs (rest ++ second) >>= _) = Except.bind
        (matched.2.matchInputs rest >>= _) _
      rw [ih]
      cases matched.2.matchInputs rest with
      | error fault => rfl
      | ok early =>
        show (((early.2.matchInputs second).map _) >>= _) = (early.2.matchInputs second).map _
        cases early.2.matchInputs second <;> rfl

theorem matchInputs_spec (inputs : List String) {matcher : Matcher}
    (consistent : matcher.Consistent) (entire : matcher.automaton.groups ≠ []) :
    matcher.matchInputs inputs = .error .historiesExhausted ∨
      ∃ results later, matcher.matchInputs inputs = .ok (results, later) ∧
        later.Consistent ∧ later.automaton = matcher.automaton ∧
        results.map MatchResult.histories? =
          inputs.map fun input => matcher.automaton.report input.toList := by
  induction inputs generalizing matcher with
  | nil => exact Or.inr ⟨[], matcher, rfl, consistent, rfl, rfl⟩
  | cons input rest ih =>
    rcases matchInput_spec consistent entire input with
      exhausted | ⟨result, next, success, answers⟩
    · left
      rw [matchInputs, exhausted]
      rfl
    · rw [← answers.automaton] at entire
      rcases ih answers.consistent entire with
        exhausted | ⟨results, later, success', laterConsistent, same, reports⟩
      · left
        rw [matchInputs, success]
        show (Matcher.matchInputs _ _ >>= _) = _
        rw [exhausted]
        rfl
      · right
        refine ⟨result :: results, later, ?_, laterConsistent, same.trans answers.automaton, ?_⟩
        · rw [matchInputs, success]
          show (Matcher.matchInputs _ _ >>= _) = _
          rw [success']
          rfl
        · rw [List.map_cons, List.map_cons, answers.histories, reports, answers.automaton]

end Matcher

namespace Automaton

/-- A new matcher reports on every input what the walkers find, unless it runs out of names. -/
theorem results_spec {automaton : Automaton} (tagged : automaton.WellTagged)
    (entire : automaton.groups ≠ []) (merge : Bool) (inputs : List String) :
    automaton.results merge inputs = .error .historiesExhausted ∨
      ∃ results, automaton.results merge inputs = .ok results ∧
        results.map MatchResult.histories? =
          inputs.map fun input => automaton.report input.toList := by
  rcases Matcher.ofAutomaton_spec tagged merge with
    exhausted | ⟨matcher, success, consistent, same⟩
  · left
    rw [results, exhausted]
    rfl
  · rw [← same] at entire
    rw [results_of_ofAutomaton success]
    rcases Matcher.matchInputs_spec inputs consistent entire with
      exhausted | ⟨results, later, success', -, -, reports⟩
    · left
      rw [exhausted]
      rfl
    · right
      refine ⟨results, ?_, by rw [reports, same]⟩
      rw [success']
      rfl

/-- What a new matcher for a finished automaton with group 0 comes to, as long as there are names
for the histories. -/
theorem exists_run {builder : Builder} {automaton : Automaton}
    (built : builder.build = .ok automaton) (entire : ∃ group ∈ automaton.groups, group.number = 0)
    {merge : Bool} {inputs : List String}
    (enough : automaton.results merge inputs ≠ .error .historiesExhausted) :
    ∃ matcher results later, Matcher.ofAutomaton automaton merge = .ok matcher ∧
      matcher.Consistent ∧ matcher.automaton = automaton ∧
      matcher.matchInputs inputs = .ok (results, later) := by
  obtain ⟨-, -, -, -, -, tagged⟩ := Builder.build_eq_ok built
  have nonempty : automaton.groups ≠ [] := by
    obtain ⟨group, member, -⟩ := entire
    exact List.ne_nil_of_mem member
  rcases Matcher.ofAutomaton_spec tagged merge with exhausted | ⟨matcher, made, consistent, same⟩
  · rw [results, exhausted] at enough
    exact absurd rfl enough
  rw [← same] at nonempty
  rcases Matcher.matchInputs_spec inputs consistent nonempty with
    exhausted | ⟨results, later, success, -⟩
  · rw [results_of_ofAutomaton made, exhausted] at enough
    exact absurd rfl enough
  exact ⟨matcher, results, later, made, consistent, same, success⟩

/-- A finished automaton that has group 0 gives the same results on every sequence of inputs with
merging and without, as long as there are names for the histories. -/
theorem results_independent_of_merge (builder : Builder) (automaton : Automaton)
    (built : builder.build = .ok automaton) (entire : ∃ group ∈ automaton.groups, group.number = 0)
    (inputs : List String)
    (enough : ∀ merge, automaton.results merge inputs ≠ .error .historiesExhausted) :
    ∃ results, automaton.results true inputs = .ok results ∧
      automaton.results false inputs = .ok results := by
  rcases Builder.build_eq_ok built with ⟨-, -, -, -, -, tagged⟩
  have nonempty : automaton.groups ≠ [] := by
    rcases entire with ⟨group, member, -⟩
    exact List.ne_nil_of_mem member
  have spec := results_spec tagged nonempty
  rcases spec true inputs with exhausted | ⟨merged, mergedOk, mergedReports⟩
  · exact absurd exhausted (enough true)
  rcases spec false inputs with exhausted | ⟨plain, plainOk, plainReports⟩
  · exact absurd exhausted (enough false)
  have same : merged = plain := by
    apply List.map_injective_iff.2 (fun _ _ => MatchResult.histories?_injective)
    rw [mergedReports, plainReports]
  rw [← same] at plainOk
  exact ⟨merged, mergedOk, plainOk⟩

end Automaton

/-- An automaton with overlapping ranges and with a cycle of epsilon edges on which group 1 opens
and closes. -/
def Builder.cyclic : Builder where
  states := ⟨4⟩
  rows :=
    [⟨⟨0⟩, .epsilon, [⟨⟨1⟩, .normal, some ⟨0, .opening⟩, 0⟩]⟩,
      ⟨⟨1⟩, .chars ⟨'a', 'm', by decide⟩, [⟨⟨1⟩, .normal, some ⟨1, .opening⟩, 1⟩]⟩,
      ⟨⟨1⟩, .chars ⟨'f', 'z', by decide⟩, [⟨⟨3⟩, .low, none, 2⟩]⟩,
      ⟨⟨1⟩, .epsilon, [⟨⟨3⟩, .normal, some ⟨1, .opening⟩, 3⟩,
        ⟨⟨2⟩, .low, some ⟨0, .closing⟩, 4⟩]⟩,
      ⟨⟨3⟩, .epsilon, [⟨⟨1⟩, .normal, some ⟨1, .closing⟩, 5⟩]⟩]
  initial := some ⟨0⟩
  accept := some ⟨2⟩
  groups := [.entireMatch, ⟨1, 0⟩]
  connected := 6

theorem Automaton.results_independent_of_merge_cyclic :
    ∃ results, Automaton.results ⟨Builder.cyclic.rows, ⟨0⟩, ⟨2⟩, Builder.cyclic.groups⟩ true
        ["fg", "g"] = .ok results ∧
      Automaton.results ⟨Builder.cyclic.rows, ⟨0⟩, ⟨2⟩, Builder.cyclic.groups⟩ false
        ["fg", "g"] = .ok results ∧
      results.map MatchResult.histories? = [some [[⟨0, 1⟩], []], some [[⟨0, 0⟩], []]] := by
  have run : ∀ merge, (Automaton.results
      ⟨Builder.cyclic.rows, ⟨0⟩, ⟨2⟩, Builder.cyclic.groups⟩ merge ["fg", "g"]).map
        (List.map MatchResult.histories?) = .ok [some [[⟨0, 1⟩], []], some [[⟨0, 0⟩], []]] := by
    intro merge
    cases merge <;> cbv
  obtain ⟨results, merged, plain⟩ := results_independent_of_merge Builder.cyclic
    ⟨Builder.cyclic.rows, ⟨0⟩, ⟨2⟩, Builder.cyclic.groups⟩ (by cbv) ⟨.entireMatch, by decide, rfl⟩
    ["fg", "g"] fun merge => Fault.ne_error_of_map_eq_ok (run merge) _
  have reported := run true
  rw [merged] at reported
  exact ⟨results, merged, plain, Except.ok.inj reported⟩

end TaggedRegex
