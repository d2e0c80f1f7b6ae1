import TaggedRegex.Proofs.Grammar.Printing
import TaggedRegex.Proofs.Matching.WellFormed
import TaggedRegex.Proofs.Skeleton.Anchored
import TaggedRegex.Proofs.Skeleton.Transfer

set_option autoImplicit false

/-!
Printing keeps the meaning of an expression. The pattern that is printed is read back as the normal
form, whose automaton has other states, but both are seen as the same skeleton.
-/

namespace TaggedRegex

/-- What is reported are the marks of the winner, one group after the other. -/
theorem Automaton.report_eq_marks {automaton : Automaton} {count : Nat}
    (numbers : automaton.groups.map Group.number = List.range count) (input : List Char) :
    automaton.report input =
      ((automaton.winner? input).map fun winner => winner.trail.marks).map fun marking =>
        (List.range count).map marking.spans := by
  rw [report, Option.map_map, ← numbers]
  congr 1
  funext winner
  rw [Function.comp_apply, List.map_map]
  exact List.map_congr_left fun group _ => winner.trail.spans_eq_marks group

namespace Regex

/-- Expressions with the same knots are matched in the same way. -/
theorem Alike.report_eq {first second : Regex} {anchor : Anchor}
    (alike : Alike (first.anchored anchor) (second.anchored anchor))
    (groups : first.groupCount = second.groupCount) {automaton other : Automaton}
    {connections connections' : List Connection} (sits : automaton.Sits connections first anchor)
    (sits' : other.Sits connections' second anchor) (input : List Char) :
    automaton.report input = other.report input := by
  obtain ⟨homes, embodies⟩ := sits.embodies
  obtain ⟨homes', embodies'⟩ := sits'.embodies
  rw [alike.skeleton] at embodies
  have same := embodies.winner?_marks embodies' sits.lays.orderly sits'.lays.orderly input
  simp only [Automaton.view, Marking.keep_some] at same
  rw [Automaton.report_eq_marks sits.numbers, Automaton.report_eq_marks sits'.numbers, same, groups]

/-- The text of an expression that does not nest parentheses too deep is a pattern, and its matcher
finds on every input what the matcher of the expression finds, whether or not the expression is
normal. -/
theorem matcher_of_text (regex : Regex) (within : nestingDepth regex.text.toList ≤ maxDepth)
    (config : Config) (input : String) (enough : regex.NamesSuffice config input)
    (enoughPrinted : ∀ printed, parse regex.text = .ok printed →
      printed.NamesSuffice config input) :
    ∃ pattern matcher result later others,
      Matcher.ofPattern regex.text config = .ok (.ok pattern) ∧
      regex.matcher config = .ok matcher ∧
      pattern.groupCount = matcher.groupCount ∧
      pattern.matchInput input = .ok (result, later) ∧
      matcher.matchInput input = .ok (result, others) := by
  have read := regex.parse_of_text within
  obtain ⟨matcher, concluded, result, performs, -⟩ := matchOnce_performs enough
  obtain ⟨pattern, concluded', result', performs', -⟩ :=
    matchOnce_performs (enoughPrinted regex.norm read)
  obtain ⟨connections, sits⟩ := performs.exists_sits
  obtain ⟨connections', sits'⟩ := performs'.exists_sits
  have groups : regex.norm.groupCount = regex.groupCount := (alike_norm regex).groupCount
  have reports := (regex.alike_anchored config.anchor).report_eq groups sits' sits input.toList
  have same : result' = result := by
    apply MatchResult.histories?_injective
    rw [performs.reported, performs'.reported, reports]
  subst same
  obtain ⟨others, matched⟩ := performs.exists_later
  obtain ⟨later, matched'⟩ := performs'.exists_later
  have made : Matcher.ofPattern regex.text config = .ok (.ok pattern) := by
    rw [Matcher.ofPattern, read]
    exact congrArg Except.ok performs'.made
  have counts : pattern.groupCount = matcher.groupCount := by
    rw [Matcher.groupCount, Matcher.groupCount, ← List.length_map (f := Group.number),
      performs'.numbers, ← List.length_map (f := Group.number), performs.numbers, groups]
  exact ⟨pattern, matcher, result', later, others, made, performs.made, counts, matched', matched⟩

/-- An expression that is not normal: sequences in sequences, branches on their own, and a loop that
can go around without reading anything. -/
def looped : Regex :=
  .cat [.cat [], .alt [.rep .star .greedy (.group (.alt [.lit 'a', .cat [.cat [.atEnd]]]))],
    .rep .opt .lazy (.cat [.cat [.any], .alt []])]

/-- On the input the loop goes around a third time, without reading anything. -/
theorem matcher_of_text_looped :
    looped.norm ≠ looped ∧
      (looped.matchOnce ⟨.full, true⟩ "aa").map (fun result => result.history 1) =
        .ok (.ok [⟨0, 0⟩, ⟨1, 1⟩, ⟨2, 1⟩]) ∧
    ∃ pattern matcher result later others,
      Matcher.ofPattern looped.text ⟨.full, true⟩ = .ok (.ok pattern) ∧
      looped.matcher ⟨.full, true⟩ = .ok matcher ∧
      pattern.groupCount = matcher.groupCount ∧
      pattern.matchInput "aa" = .ok (result, later) ∧
      matcher.matchInput "aa" = .ok (result, others) := by
  have within : nestingDepth looped.text.toList ≤ maxDepth := by cbv
  have printed : parse looped.text = .ok looped.norm := by cbv
  have history : (looped.matchOnce ⟨.full, true⟩ "aa").map (fun result => result.history 1) =
      .ok (.ok [⟨0, 0⟩, ⟨1, 1⟩, ⟨2, 1⟩]) := by cbv
  refine ⟨fun same => (by cases same), history, ?_⟩
  apply matcher_of_text looped within ⟨.full, true⟩ "aa" (namesSuffice_of_map_eq_ok history)
  intro regex read
  obtain rfl := Except.ok.inj (printed.symm.trans read)
  exact namesSuffice_of_isOk (by cbv)

end Regex

end TaggedRegex
