import TaggedRegex.Proofs.Matching.MergeInvariance
import TaggedRegex.Proofs.Matching.Paths

set_option autoImplicit false

/-!
A matcher sees of a character only its part of the alphabet. Inputs that go through the same parts
have the same result, and an input that leaves the alphabet has no match.
-/

namespace TaggedRegex

variable {automaton : Automaton}

/-- The parts of the alphabet that the characters of an input belong to. -/
def Alphabet.parts (alphabet : Alphabet) (input : List Char) : List (Option CharRange) :=
  input.map alphabet.find?

namespace Walker

/-- Walkers take the same step on characters of the same part, and none outside the alphabet. -/
theorem advance_congr_find? {c d : Char}
    (same : (Alphabet.ofRanges automaton.inputRanges).find? c =
      (Alphabet.ofRanges automaton.inputRanges).find? d) (consumed : Nat)
    (walkers : List Walker) :
    advance automaton (.char c) consumed walkers =
      advance automaton (.char d) consumed walkers := by
  cases found : (Alphabet.ofRanges automaton.inputRanges).find? c with
  | none =>
    rw [advance_char_eq_nil found, advance_char_eq_nil (same.symm.trans found)]
  | some part =>
    have inside := Alphabet.mem_of_find? _ _ _ (same.symm.trans found)
    rw [advance_char_congr found inside]

theorem afterChars_congr_parts {first second : List Char}
    (same : (Alphabet.ofRanges automaton.inputRanges).parts first =
      (Alphabet.ofRanges automaton.inputRanges).parts second) (walkers : List Walker)
    (consumed : Nat) :
    afterChars automaton walkers consumed first = afterChars automaton walkers consumed second := by
  induction first generalizing second walkers consumed with
  | nil =>
    obtain rfl := List.map_eq_nil_iff.1 same.symm
    rfl
  | cons c rest ih =>
    obtain ⟨d, others, rfl, head, tail⟩ := List.map_eq_cons_iff.1 same.symm
    rw [afterChars, afterChars, advance_congr_find? head.symm]
    exact ih tail.symm _ _

theorem afterChars_eq_nil {input : List Char} {c : Char} (member : c ∈ input)
    (outside : (Alphabet.ofRanges automaton.inputRanges).find? c = none)
    (walkers : List Walker) (consumed : Nat) :
    afterChars automaton walkers consumed input = [] := by
  induction input generalizing walkers consumed with
  | nil => cases member
  | cons d rest ih =>
    rw [afterChars]
    rcases List.mem_cons.1 member with rfl | later
    · rw [advance_char_eq_nil outside, afterChars_nil]
    · exact ih later _ _

end Walker

namespace Automaton

theorem report_congr_parts {first second : List Char}
    (same : (Alphabet.ofRanges automaton.inputRanges).parts first =
      (Alphabet.ofRanges automaton.inputRanges).parts second) :
    automaton.report first = automaton.report second := by
  have length : first.length = second.length := by
    have lengths := congrArg List.length same
    rwa [Alphabet.parts, Alphabet.parts, List.length_map, List.length_map] at lengths
  rw [report, report, winner?, winner?, Walker.afterChars_congr_parts same, length]

theorem report_eq_none {input : List Char} {c : Char} (member : c ∈ input)
    (outside : (Alphabet.ofRanges automaton.inputRanges).find? c = none) :
    automaton.report input = none := by
  rw [report, winner?, Walker.afterChars_eq_nil member outside]
  rfl

/-- What is reported can be the outcome of a match. -/
theorem exists_histories?_eq_report (entire : automaton.groups ≠ []) (input : List Char) :
    ∃ result : MatchResult, result.histories? = automaton.report input := by
  rw [report]
  cases automaton.winner? input with
  | none => exact ⟨.noMatch, rfl⟩
  | some walker =>
    have nonempty : automaton.groups.map walker.trail.spans ≠ [] := by
      rwa [ne_eq, List.map_eq_nil_iff]
    exact ⟨.matched ⟨_, nonempty⟩, rfl⟩

/-- Two inputs that go through the same parts of the alphabet have the same result, whatever the
matcher has read before, and in whichever order and however often they are matched. An input that
leaves the alphabet does not match. -/
theorem result_determined_by_parts (builder : Builder) (automaton : Automaton)
    (built : builder.build = .ok automaton) (entire : ∃ group ∈ automaton.groups, group.number = 0)
    (merge : Bool) (earlier : List String)
    (enough : automaton.results merge earlier ≠ .error .historiesExhausted) :
    ∃ matcher earlierResults used, Matcher.ofAutomaton automaton merge = .ok matcher ∧
      matcher.matchInputs earlier = .ok (earlierResults, used) ∧
      (∀ first second : String,
        used.alphabet.parts first.toList = used.alphabet.parts second.toList →
        ∃ result, ∀ inputs : List String, inputs ⊆ [first, second] →
          used.matchInputs inputs ≠ .error .historiesExhausted →
          ∃ later, used.matchInputs inputs = .ok (inputs.map fun _ => result, later)) ∧
      ∀ (input : String) (c : Char), c ∈ input.toList → used.alphabet.find? c = none →
        used.matchInput input ≠ .error .historiesExhausted →
        ∃ later, used.matchInput input = .ok (.noMatch, later) := by
  obtain ⟨matcher, earlierResults, used, made, consistent, same, early⟩ :=
    exists_run built entire enough
  have nonempty : automaton.groups ≠ [] := by
    obtain ⟨group, member, -⟩ := entire
    exact List.ne_nil_of_mem member
  rw [← same] at nonempty
  obtain exhausted | ⟨_, _, again, usedConsistent, usedSame, -⟩ :=
    Matcher.matchInputs_spec earlier consistent nonempty
  · rw [exhausted] at early
    cases early
  obtain ⟨-, rfl⟩ := Prod.mk.inj (Except.ok.inj (early.symm.trans again))
  rw [← usedSame] at nonempty
  refine ⟨matcher, earlierResults, used, made, early, ?_, ?_⟩
  · intro first second sameParts
    rw [usedConsistent.alphabet] at sameParts
    obtain ⟨result, reported⟩ := exists_histories?_eq_report nonempty first.toList
    refine ⟨result, fun inputs among enoughInputs => ?_⟩
    obtain exhausted | ⟨results, later, success, -, -, reports⟩ :=
      Matcher.matchInputs_spec inputs usedConsistent nonempty
    · exact absurd exhausted enoughInputs
    refine ⟨later, ?_⟩
    have equal : results = inputs.map fun _ => result := by
      apply List.map_injective_iff.2 fun _ _ => MatchResult.histories?_injective
      rw [reports, List.map_map]
      apply List.map_congr_left
      intro input member
      show used.automaton.report input.toList = result.histories?
      rw [reported]
      rcases List.mem_cons.1 (among member) with rfl | other
      · rfl
      · rw [List.mem_singleton.1 other, report_congr_parts sameParts]
    rw [success, equal]
  · intro input c member outside enoughInput
    rw [usedConsistent.alphabet] at outside
    obtain exhausted | ⟨result, later, success, answers⟩ :=
      Matcher.matchInput_spec usedConsistent nonempty input
    · exact absurd exhausted enoughInput
    have silent : result.histories? = MatchResult.noMatch.histories? :=
      answers.histories.trans (report_eq_none member outside)
    rw [MatchResult.histories?_injective silent] at success
    exact ⟨later, success⟩

/-- Two inputs of the same parts, one of them matched twice, and an input that leaves the
alphabet. -/
theorem result_determined_by_parts_winding :
    ∃ matcher earlierResults used result later last,
      Matcher.ofAutomaton ⟨Builder.winding.rows, ⟨0⟩, ⟨2⟩, Builder.winding.groups⟩ true =
        .ok matcher ∧
      matcher.matchInputs ["fga", "z", "dt"] = .ok (earlierResults, used) ∧
      used.alphabet.parts "eda".toList = used.alphabet.parts "gcb".toList ∧
      used.matchInputs ["eda", "gcb", "eda"] = .ok ([result, result, result], later) ∧
      result.history 1 = .ok [⟨1, 2⟩] ∧
      used.alphabet.find? '!' = none ∧ used.matchInput "fg!" = .ok (.noMatch, last) := by
  obtain ⟨matcher, earlierResults, used, made, early, alike, leaves⟩ :=
    result_determined_by_parts Builder.winding
      ⟨Builder.winding.rows, ⟨0⟩, ⟨2⟩, Builder.winding.groups⟩ (by cbv)
      ⟨.entireMatch, by decide, rfl⟩ true ["fga", "z", "dt"] (Fault.ne_error_of_isOk (by cbv) _)
  have run : ((Matcher.ofAutomaton ⟨Builder.winding.rows, ⟨0⟩, ⟨2⟩, Builder.winding.groups⟩
      true).bind fun matcher => (matcher.matchInputs ["fga", "z", "dt"]).bind fun early =>
        (early.2.matchInputs ["eda", "gcb", "eda"]).map fun matched =>
          (decide (early.2.alphabet.parts "eda".toList = early.2.alphabet.parts "gcb".toList),
            matched.1.map fun result => result.history 1,
            early.2.alphabet.find? '!', (early.2.matchInput "fg!").isOk)) =
      .ok (true, [.ok [⟨1, 2⟩], .ok [⟨1, 2⟩], .ok [⟨1, 2⟩]], none, true) := by cbv
  rw [made, Except.bind, early, Except.bind] at run
  obtain ⟨⟨results, later⟩, matched, facts⟩ := Fault.of_map_eq_ok run
  simp only [Prod.mk.injEq, decide_eq_true_eq] at facts
  obtain ⟨same, histories, outside, ends⟩ := facts
  obtain ⟨result, shared⟩ := alike "eda" "gcb" same
  obtain ⟨_, success⟩ := shared ["eda", "gcb", "eda"] (by simp)
    (Fault.ne_error_of_map_eq_ok run _)
  obtain ⟨rfl, rfl⟩ := Prod.mk.inj (Except.ok.inj (matched.symm.trans success))
  obtain ⟨last, missed⟩ := leaves "fg!" '!' (by decide) outside (Fault.ne_error_of_isOk ends _)
  exact ⟨matcher, earlierResults, used, result, later, last, made, early, same, matched,
    (List.cons.inj histories).1, outside, missed⟩

end Automaton

end TaggedRegex
