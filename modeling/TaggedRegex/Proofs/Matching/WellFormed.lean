import Mathlib
import TaggedRegex.Proofs.Language.Nesting
import TaggedRegex.Proofs.Matching.LeastRun
import TaggedRegex.Proofs.Matching.Paths

set_option autoImplicit false

/-!
Captures are well formed. Group 0 has one span; every group ends as often as it begins, and its
spans come one after the other, inside spans of the group around it, where the expression inside
the group matches.
-/

namespace TaggedRegex

/-- The spans of a group that stands around the expression, and the spans of the group around it. -/
structure Regex.WellSpanned (regex : Regex) (input : List Char) (around spans : List Span) :
    Prop where
  bounded : ∀ span ∈ spans,
    0 ≤ span.first ∧ span.first ≤ span.last + 1 ∧ span.last + 1 ≤ input.length
  ordered : spans.Pairwise fun early late => early.last + 1 ≤ late.first
  nested : ∀ span ∈ spans, ∃ outer ∈ around, outer.first ≤ span.first ∧ span.last ≤ outer.last
  spelled : ∀ span ∈ spans, ∃ first limit : Nat,
    span = ⟨first, (limit : Int) - 1⟩ ∧ regex.MatchesAt input first limit

namespace Regex

mutual

/-- The group around a group has no larger number. -/
theorem parent_le_of_mem_nested (regex : Regex) {number parent : Nat} (le : parent ≤ number) :
    ∀ entry ∈ regex.nested number parent, entry.1.parent ≤ entry.1.number := by
  intro entry member
  cases regex with
  | any | lit | set | atEnd =>
    rw [nested] at member
    cases member
  | group body =>
    rw [nested] at member
    obtain rfl | inside := List.mem_cons.1 member
    · exact le
    · exact parent_le_of_mem_nested body (Nat.le_succ number) entry inside
  | rep _ _ body =>
    rw [nested] at member
    exact parent_le_of_mem_nested body le entry member
  | alt branches =>
    rw [nested] at member
    exact parent_le_of_mem_nestedAll branches le entry member
  | cat items =>
    rw [nested] at member
    exact parent_le_of_mem_nestedAll items le entry member

theorem parent_le_of_mem_nestedAll (expressions : List Regex) {number parent : Nat}
    (le : parent ≤ number) :
    ∀ entry ∈ nestedAll number parent expressions, entry.1.parent ≤ entry.1.number := by
  intro entry member
  cases expressions with
  | nil =>
    rw [nestedAll] at member
    cases member
  | cons regex rest =>
    rw [nestedAll] at member
    obtain early | late := List.mem_append.1 member
    · exact parent_le_of_mem_nested regex le entry early
    · exact parent_le_of_mem_nestedAll rest (Nat.le_trans le (Nat.le_add_right _ _)) entry late

end

end Regex

/-- The spans of a group are well formed if the marks fit. -/
theorem Marking.Fits.wellSpanned {table : List (Group × Regex)} {input : List Char}
    {excused : Group → Prop} {low high : Nat} {marking : Marking}
    (fits : marking.Fits table input excused low high) {entry : Group × Regex}
    (listed : entry ∈ table) (itself : excused entry.1 → entry.1.parent = entry.1.number) :
    entry.2.WellSpanned input (marking.spans entry.1.parent) (marking.spans entry.1.number) := by
  refine ⟨?_, ?_, ?_, ?_⟩
  · intro span member
    obtain ⟨extent, inside, rfl⟩ := List.mem_map.1 member
    obtain ⟨le, within, -⟩ := fits.spelled entry listed extent inside
    dsimp only
    omega
  · rw [spans, List.pairwise_map]
    apply (fits.ordered entry.1.number).imp
    intro early late le
    dsimp only
    omega
  · intro span member
    obtain excused | nested := fits.nested entry listed
    · rw [itself excused]
      exact ⟨span, member, le_refl _, le_refl _⟩
    · obtain ⟨extent, inside, rfl⟩ := List.mem_map.1 member
      obtain ⟨outer, outerMember, begins, ends⟩ := nested extent inside
      refine ⟨_, List.mem_map_of_mem outerMember, ?_, ?_⟩
      · dsimp only
        omega
      · dsimp only
        omega
  · intro span member
    obtain ⟨extent, inside, rfl⟩ := List.mem_map.1 member
    exact ⟨extent.1, extent.2, rfl, fits.spelled entry listed extent inside⟩

/-- The spans of every group are those of its marks. -/
theorem Captures.history_eq_spans {captures : Captures} {groups : List Group} {trail : Trail}
    (same : captures.groups = groups.map trail.spans)
    {count : Nat} (numbers : groups.map Group.number = List.range count) {number : Nat}
    (lt : number < count) : captures.history number = .ok (trail.marks.spans number) := by
  have listed : number ∈ groups.map Group.number := by
    rw [numbers]
    exact List.mem_range.2 lt
  obtain ⟨group, member, rfl⟩ := List.mem_map.1 listed
  rw [history_eq same numbers member, Trail.spans_eq_marks]

namespace Regex

/-- What a matcher for the expression has captured is well formed. -/
structure WellCaptured (regex : Regex) (config : Config) (input : String) (matcher : Matcher)
    (captures : Captures) : Prop where
  size : captures.size = regex.captureGroups.length
  /-- Group 0 has one span, which is everything unless this is a search. -/
  entire : ∃ span, captures.history 0 = .ok [span] ∧
    (config.anchor = .full → span = ⟨0, (input.toList.length : Int) - 1⟩)
  /-- As many ends as beginnings have been committed for every group, so none is left out when they
  are put together. -/
  committed : ∃ memory histories later,
    matcher.conclusion input = .ok (some (memory, histories), later) ∧
    ∀ group ∈ matcher.automaton.groups, ∃ firsts lasts,
      Matcher.positions matcher.automaton memory histories group.startTag = .ok firsts ∧
      Matcher.positions matcher.automaton memory histories group.endTag = .ok lasts ∧
      firsts.length = lasts.length ∧
      captures.history group.number =
        .ok ((firsts.zip lasts).map fun (first, last) => ⟨first, last⟩)
  groups : ∀ entry ∈ regex.captureGroups, ∃ around spans,
    captures.history entry.1.parent = .ok around ∧ captures.history entry.1.number = .ok spans ∧
    entry.2.WellSpanned input.toList around spans

/-- What a new matcher for an expression captures is well formed. -/
theorem matchOnce_wellCaptured (regex : Regex) (config : Config) (input : String)
    (enough : regex.NamesSuffice config input) :
    ∃ matcher result, regex.matcher config = .ok matcher ∧
      matcher.automaton.groups = regex.captureGroups.map Prod.fst ∧
      regex.matchOnce config input = .ok result ∧
      ∀ captures, result = .matched captures →
        regex.WellCaptured config input matcher captures := by
  obtain ⟨matcher, concluded, result, performs, connections, lays⟩ := matchOnce_performs enough
  have asGroups := groups_automaton performs.built
  refine ⟨matcher, result, performs.made, asGroups, performs.success, ?_⟩
  intro captures same
  subst same
  obtain ⟨winner, memory, histories, later, won, groups, rfl, length, bears⟩ :=
    performs.exists_winner
  obtain ⟨first, limit, entire, full, fits⟩ :=
    (lays.marks (Automaton.completes_of_winner? won)).fits_anchored
  have history : ∀ {number : Nat}, number < regex.groupCount + 1 →
      captures.history number = .ok (winner.trail.marks.spans number) :=
    Captures.history_eq_spans groups performs.numbers
  refine ⟨?_, ?_, ⟨memory, histories, later, performs.conclusion, ?_⟩, ?_⟩
  · rw [Captures.size, groups, asGroups, List.length_map, List.length_map]
  · refine ⟨⟨first, (limit : Int) - 1⟩, ?_, ?_⟩
    · rw [history (by omega), Marking.spans, entire]
      rfl
    · intro anchored
      obtain ⟨rfl, rfl⟩ := full anchored
      rfl
  · intro group member
    have tags : ∀ tag ∈ [group.startTag, group.endTag], tag ∈ matcher.automaton.tags :=
      fun tag inside => List.mem_flatMap.2 ⟨group, member, inside⟩
    refine ⟨_, _, Matcher.positions_eq performs.tagged length bears (tags group.startTag (by simp)),
      Matcher.positions_eq performs.tagged length bears (tags group.endTag (by simp)), ?_, ?_⟩
    · have balanced : (winner.trail.crossings group.startTag).length =
          (winner.trail.crossings group.endTag).length :=
        winner.trail.balanced_iff_marks.2 fits.balanced group.number
      simpa [Trail.recorded] using balanced
    · rw [Captures.history_eq groups performs.numbers member, Trail.spans_eq_zip_recorded]
  · intro entry listed
    have listedNumber : entry.1.number < regex.groupCount + 1 := by
      have mapped := List.mem_map_of_mem (f := fun entry => entry.1.number) listed
      rw [numbers_captureGroups, List.mem_range] at mapped
      exact mapped
    have le := parent_le_of_mem_nested (.group regex) (Nat.le_refl 0) entry listed
    refine ⟨_, _, history (by omega), history listedNumber, fits.wellSpanned listed ?_⟩
    intro isEntire
    omega

/-- Groups inside each other, in loops whose bodies may read nothing. -/
def nestedLoops : Regex :=
  .rep .star .greedy (.group (.cat [.group (.rep .star .greedy (.lit 'a')),
    .rep .opt .greedy (.group (.lit 'b')), .rep .opt .greedy .atEnd]))

theorem matchOnce_wellCaptured_nested_loops :
    ∃ matcher captures, nestedLoops.matcher ⟨.full, true⟩ = .ok matcher ∧
      matcher.automaton.groups = [⟨0, 0⟩, ⟨1, 0⟩, ⟨2, 1⟩, ⟨3, 1⟩] ∧
      nestedLoops.matchOnce ⟨.full, true⟩ "aab" = .ok (.matched captures) ∧
      captures.groups = [[⟨0, 2⟩], [⟨0, 2⟩], [⟨0, 1⟩], [⟨2, 2⟩]] ∧
      nestedLoops.WellCaptured ⟨.full, true⟩ "aab" matcher captures := by
  have run : (nestedLoops.matchOnce ⟨.full, true⟩ "aab").map MatchResult.histories? =
      .ok (some [[⟨0, 2⟩], [⟨0, 2⟩], [⟨0, 1⟩], [⟨2, 2⟩]]) := by cbv
  obtain ⟨matcher, result, made, groups, success, formed⟩ :=
    matchOnce_wellCaptured nestedLoops ⟨.full, true⟩ "aab" (namesSuffice_of_map_eq_ok run)
  rw [success] at run
  obtain ⟨captures, rfl, spans⟩ := MatchResult.exists_captures (Except.ok.inj run)
  exact ⟨matcher, captures, made, groups, success, spans, formed captures rfl⟩

end Regex

end TaggedRegex
