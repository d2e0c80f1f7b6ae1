import TaggedRegex.Proofs.Matching.WellFormed
import TaggedRegex.Proofs.Skeleton.Anchored
import TaggedRegex.Proofs.Skeleton.Transfer

set_option autoImplicit false

/-!
A search is a match against the whole input with fillers around the expression. Without the tags of
group 0 the automaton of that match is seen as the skeleton of the search, and the groups of the
search are there under the next number.
-/

namespace TaggedRegex

/-- Without the marks of group 0 every group has the marks of the next one. -/
theorem Marking.places_keep_inner (marking : Marking) (group : Nat) (boundary : Boundary) :
    (marking.keep Tag.inner?).places ⟨group, boundary⟩ = marking.places ⟨group + 1, boundary⟩ := by
  induction marking with
  | nil => rfl
  | cons mark rest ih =>
    obtain ⟨⟨number, side⟩, consumed⟩ := mark
    rw [places_cons, ← ih]
    cases number with
    | zero =>
      rw [if_neg (by simp), List.nil_append]
      rfl
    | succ number =>
      show places (⟨⟨number, side⟩, consumed⟩ :: keep Tag.inner? rest) _ = _
      rw [places_cons]
      simp only [Tag.mk.injEq, Nat.add_right_cancel_iff]

theorem Marking.spans_keep_inner (marking : Marking) (group : Nat) :
    (marking.keep Tag.inner?).spans group = marking.spans (group + 1) := by
  rw [spans, extents, places_keep_inner, places_keep_inner]
  rfl

namespace Regex

/-- The winner of a search, and that of the match against the whole input with fillers around the
expression, have the same marks, but those of group 0 in the second one. -/
theorem winner?_search {regex : Regex} {automaton other : Automaton}
    {connections connections' : List Connection}
    (sits : automaton.Sits connections regex .search)
    (sits' : other.Sits connections' (regex.anchored .search) .full) (input : List Char) :
    (automaton.winner? input).map (fun winner => winner.trail.marks) =
      (other.winner? input).map fun winner => winner.trail.marks.keep Tag.inner? := by
  have same := sits.embodies_search.winner?_marks sits'.embodies_inner sits.lays.orderly
    sits'.lays.orderly input
  simpa only [Automaton.view, Marking.keep_some] using same

/-- A search matches exactly if the expression between a lazy and a greedy filler, as a group,
matches the whole input; then every group of the search, the entire match among them, has the
history of the next group there. -/
theorem search_eq_filled (regex : Regex) (merge : Bool) (input : String)
    (enough : regex.NamesSuffice ⟨.search, merge⟩ input)
    (enoughFilled : (cat [.rep .star .lazy .any, .group regex,
      .rep .star .greedy .any]).NamesSuffice ⟨.full, merge⟩ input) :
    ∃ found filled, regex.matchOnce ⟨.search, merge⟩ input = .ok found ∧
      (cat [.rep .star .lazy .any, .group regex, .rep .star .greedy .any]).matchOnce
        ⟨.full, merge⟩ input = .ok filled ∧
      found.isMatch = filled.isMatch ∧
      (found.isMatch = true → ∀ group ≤ regex.groupCount, ∃ history,
        found.history group = .ok history ∧ filled.history (group + 1) = .ok history) := by
  obtain ⟨matcher, concluded, found, performs, -⟩ := matchOnce_performs enough
  obtain ⟨other, concluded', filled, performs', -⟩ := matchOnce_performs enoughFilled
  obtain ⟨connections, sits⟩ := performs.exists_sits
  obtain ⟨connections', sits'⟩ := performs'.exists_sits
  have marks := winner?_search sits sits' input.toList
  refine ⟨found, filled, performs.success, performs'.success, ?_⟩
  have none_iff : matcher.automaton.winner? input.toList = none ↔
      other.automaton.winner? input.toList = none := by
    rw [← Option.map_eq_none_iff, marks, Option.map_eq_none_iff]
  cases found with
  | noMatch =>
    have none := performs'.noMatch_iff.2 (none_iff.1 (performs.noMatch_iff.1 rfl))
    subst none
    exact ⟨rfl, fun matched => by cases matched⟩
  | matched captures =>
    cases filled with
    | noMatch =>
      have none := performs.noMatch_iff.2 (none_iff.2 (performs'.noMatch_iff.1 rfl))
      cases none
    | matched others =>
      refine ⟨rfl, fun _ group le => ?_⟩
      obtain ⟨winner, -, -, -, won, spans, -⟩ := performs.exists_winner
      obtain ⟨winner', -, -, -, won', spans', -⟩ := performs'.exists_winner
      rw [won, won', Option.map_some, Option.map_some, Option.some.injEq] at marks
      have inside : group < regex.groupCount + 1 := Nat.lt_succ_of_le le
      have counted : (regex.anchored .search).groupCount = regex.groupCount + 1 :=
        Nat.zero_add _
      have inside' : group + 1 < (regex.anchored .search).groupCount + 1 := by omega
      refine ⟨_, Captures.history_eq_spans spans performs.numbers inside, ?_⟩
      rw [marks, Marking.spans_keep_inner]
      exact Captures.history_eq_spans spans' performs'.numbers inside'

/-- A character, and behind it a loop that can go around without reading anything. -/
def tailed : Regex := .cat [.lit 'a', .rep .star .greedy (.group (.alt [.lit 'b', .cat []]))]

/-- The match begins behind the first character. The loop goes around once, and not again without
reading anything. -/
theorem search_eq_filled_tailed :
    ∃ found filled, tailed.matchOnce ⟨.search, true⟩ "xaby" = .ok found ∧
      (cat [.rep .star .lazy .any, .group tailed, .rep .star .greedy .any]).matchOnce
        ⟨.full, true⟩ "xaby" = .ok filled ∧
      found.isMatch = filled.isMatch ∧
      (found.isMatch = true → ∀ group ≤ tailed.groupCount, ∃ history,
        found.history group = .ok history ∧ filled.history (group + 1) = .ok history) ∧
      found.history 1 = .ok [⟨2, 2⟩] := by
  have history : (tailed.matchOnce ⟨.search, true⟩ "xaby").map (fun result => result.history 1) =
      .ok (.ok [⟨2, 2⟩]) := by cbv
  obtain ⟨found, filled, success, success', same, histories⟩ :=
    search_eq_filled tailed true "xaby" (namesSuffice_of_map_eq_ok history)
      (namesSuffice_of_isOk (by cbv))
  rw [success] at history
  exact ⟨found, filled, success, success', same, histories, Except.ok.inj history⟩

end Regex

end TaggedRegex
