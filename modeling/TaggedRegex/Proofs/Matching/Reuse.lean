import Mathlib
import TaggedRegex.Proofs.Matching.MergeInvariance

set_option autoImplicit false

/-!
A matcher may be used again. Whatever it has computed for earlier inputs, it gives the result that a
new matcher gives, so the order of the inputs makes no difference.
-/

namespace TaggedRegex

/-- Each input together with its result, if all results are right. -/
theorem MatchResult.zip_histories {inputs : List String} {results : List MatchResult}
    {expected : String → Option (List (List Span))}
    (reports : results.map MatchResult.histories? = inputs.map expected) :
    (inputs.zip results).map (Prod.map id MatchResult.histories?) =
      inputs.map fun input => (input, expected input) := by
  rw [← List.zip_map_right, reports, List.map_prod_left_eq_zip]

/-- Inputs in another order have the same results, each its own. -/
theorem MatchResult.perm_zip {first second : List String} {firstResults secondResults :
    List MatchResult} {expected : String → Option (List (List Span))}
    (firstReports : firstResults.map MatchResult.histories? = first.map expected)
    (secondReports : secondResults.map MatchResult.histories? = second.map expected)
    (reordered : first.Perm second) :
    (first.zip firstResults).Perm (second.zip secondResults) := by
  have injective : Function.Injective
      (Prod.map id MatchResult.histories? : String × MatchResult → _) :=
    Function.injective_id.prodMap fun _ _ => MatchResult.histories?_injective
  rw [← List.map_perm_map_iff injective, zip_histories firstReports, zip_histories secondReports]
  exact reordered.map _

namespace Automaton

/-- A matcher of a finished automaton that has group 0 gives the same result after other inputs as
it gives at once. All results stay the same when the inputs come in another order. -/
theorem result_independent_of_earlier (builder : Builder) (automaton : Automaton)
    (built : builder.build = .ok automaton) (entire : ∃ group ∈ automaton.groups, group.number = 0)
    (merge : Bool) (earlier : List String) (input : String)
    (enough : automaton.results merge (earlier ++ [input]) ≠ .error .historiesExhausted)
    (enoughAlone : automaton.results merge [input] ≠ .error .historiesExhausted) :
    ∃ matcher earlierResults used result later laterAlone,
      Matcher.ofAutomaton automaton merge = .ok matcher ∧
      matcher.matchInputs earlier = .ok (earlierResults, used) ∧
      used.matchInput input = .ok (result, later) ∧
      matcher.matchInput input = .ok (result, laterAlone) ∧
      ∀ reordered : List String, reordered.Perm (earlier ++ [input]) →
        automaton.results merge reordered ≠ .error .historiesExhausted →
        ∃ results, automaton.results merge reordered = .ok results ∧
          (reordered.zip results).Perm ((earlier ++ [input]).zip (earlierResults ++ [result])) := by
  obtain ⟨-, -, -, -, -, tagged⟩ := Builder.build_eq_ok built
  have nonempty : automaton.groups ≠ [] := by
    obtain ⟨group, member, -⟩ := entire
    exact List.ne_nil_of_mem member
  have spec := results_spec tagged nonempty merge
  obtain exhausted | ⟨matcher, made, consistent, rfl⟩ := Matcher.ofAutomaton_spec tagged merge
  · apply absurd _ enough
    rw [results, exhausted]
    rfl
  rw [results_of_ofAutomaton made] at enough enoughAlone
  -- What the matcher is after the earlier inputs, and what it reports then.
  rw [Matcher.matchInputs_append] at enough
  obtain exhausted | ⟨earlierResults, used, early, usedConsistent, same, earlierReports⟩ :=
    Matcher.matchInputs_spec earlier consistent nonempty
  · apply absurd _ enough
    rw [exhausted]
    rfl
  rw [early] at enough
  have usedNonempty : used.automaton.groups ≠ [] := by
    rw [same]
    exact nonempty
  obtain exhausted | ⟨result, later, success, answers⟩ :=
    Matcher.matchInput_spec usedConsistent usedNonempty input
  · apply absurd _ enough
    show ((used.matchInputs [input]).map _).map _ = _
    rw [Matcher.matchInputs_singleton, exhausted]
    rfl
  -- What it reports at once.
  obtain exhausted | ⟨resultAlone, laterAlone, successAlone, answersAlone⟩ :=
    Matcher.matchInput_spec consistent nonempty input
  · apply absurd _ enoughAlone
    rw [Matcher.matchInputs_singleton, exhausted]
    rfl
  have reported : result.histories? = matcher.automaton.report input.toList := by
    rw [answers.histories, same]
  obtain rfl : result = resultAlone :=
    MatchResult.histories?_injective (reported.trans answersAlone.histories.symm)
  refine ⟨matcher, earlierResults, used, result, later, laterAlone, made, early, success,
    successAlone, ?_⟩
  intro others reordered othersEnough
  obtain exhausted | ⟨results, othersOk, reports⟩ := spec others
  · exact absurd exhausted othersEnough
  refine ⟨results, othersOk, MatchResult.perm_zip reports ?_ reordered⟩
  rw [List.map_append, List.map_append, earlierReports, List.map_singleton, reported]
  rfl

/-- Three inputs, and the same three in another order. -/
theorem result_independent_of_earlier_cyclic :
    ∃ matcher earlierResults used result later laterAlone results,
      Matcher.ofAutomaton ⟨Builder.cyclic.rows, ⟨0⟩, ⟨2⟩, Builder.cyclic.groups⟩ true =
        .ok matcher ∧
      matcher.matchInputs ["g", "fg"] = .ok (earlierResults, used) ∧
      used.matchInput "ffg" = .ok (result, later) ∧
      matcher.matchInput "ffg" = .ok (result, laterAlone) ∧
      result.histories? = some [[⟨0, 2⟩], []] ∧
      Automaton.results ⟨Builder.cyclic.rows, ⟨0⟩, ⟨2⟩, Builder.cyclic.groups⟩ true
        ["ffg", "g", "fg"] = .ok results ∧
      (["ffg", "g", "fg"].zip results).Perm
        ((["g", "fg"] ++ ["ffg"]).zip (earlierResults ++ [result])) := by
  obtain ⟨matcher, earlierResults, used, result, later, laterAlone, made, early, success, alone,
    reorders⟩ := result_independent_of_earlier Builder.cyclic
      ⟨Builder.cyclic.rows, ⟨0⟩, ⟨2⟩, Builder.cyclic.groups⟩ (by cbv)
      ⟨.entireMatch, by decide, rfl⟩ true ["g", "fg"] "ffg" (Fault.ne_error_of_isOk (by cbv) _)
      (Fault.ne_error_of_isOk (by cbv) _)
  have run : ((Matcher.ofAutomaton ⟨Builder.cyclic.rows, ⟨0⟩, ⟨2⟩, Builder.cyclic.groups⟩
      true).bind fun matcher => (matcher.matchInput "ffg").map fun alone =>
        alone.1.histories?) = .ok (some [[⟨0, 2⟩], []]) := by cbv
  rw [made, Except.bind, alone] at run
  obtain ⟨results, reordered, perm⟩ := reorders ["ffg", "g", "fg"] (by decide)
    (Fault.ne_error_of_isOk (by cbv) _)
  exact ⟨matcher, earlierResults, used, result, later, laterAlone, results, made, early, success,
    alone, Except.ok.inj run, reordered, perm⟩

end Automaton

end TaggedRegex
