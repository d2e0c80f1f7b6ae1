import Mathlib
import TaggedRegex.Proofs.Language.Membership
import TaggedRegex.Proofs.Matching.WellFormed

set_option autoImplicit false

/-!
A search is leftmost. It finds a match if there is one anywhere in the input, and then one that
begins as early as any.
-/

namespace TaggedRegex

variable {automaton : Automaton} {connections : List Connection}

/-- A completion marks nothing before the place at which it begins. -/
theorem Automaton.Completes.le_of_mark {rest : List Char} {consumed : Nat} {state : StateId}
    {trail : Trail} (completes : automaton.Completes rest consumed state trail) :
    ∀ mark ∈ trail.marks, consumed ≤ mark.consumed := by
  have le : ∀ crossing ∈ trail, consumed ≤ crossing.consumed := by
    induction completes with
    | done => exact fun crossing member => absurd member List.not_mem_nil
    | free _ _ ih | atEnd _ _ ih =>
      intro crossing member
      obtain rfl | later := List.mem_cons.1 member
      · exact Nat.le_refl _
      · exact ih crossing later
    | read _ _ ih =>
      intro crossing member
      obtain rfl | later := List.mem_cons.1 member
      · exact Nat.le_succ _
      · exact Nat.le_of_succ_le (ih crossing later)
  intro mark member
  obtain ⟨crossing, inside, same⟩ := List.mem_filterMap.1 member
  obtain ⟨tag, -, rfl⟩ := Option.map_eq_some_iff.1 same
  exact le crossing inside

/-- Where any characters may be skipped, but would rather not be, the completion that stops skipping
first comes first. -/
theorem Plan.Leaves.precedes_of_earlier (draws : automaton.Draws connections)
    {first last middle begins : StateId} {tag : Tag}
    (reads : (automaton.plan connections).Leaves first [.read .all last])
    (again : (automaton.plan connections).Leaves last
      [.epsilon first .low, .epsilon middle .normal])
    (opens : (automaton.plan connections).Leaves middle [.cross begins tag])
    {state : StateId}
    (waits : (automaton.plan connections).Leaves state
      [.epsilon first .low, .epsilon middle .normal])
    {rest : List Char} {consumed : Nat} {trail other : Trail}
    (completes : automaton.Completes rest consumed state trail)
    (otherCompletes : automaton.Completes rest consumed state other) {early late : Nat}
    (begun : trail.marks.head? = some ⟨tag, early⟩)
    (otherBegun : other.marks.head? = some ⟨tag, late⟩)
    (lt : early < late) : trail.Precedes other := by
  have atMiddle : ∀ {rest consumed later place}, automaton.Completes rest consumed middle later →
      later.marks.head? = some ⟨tag, place⟩ → place = consumed := by
    intro rest consumed later place passes here
    obtain ⟨edge, onward, tagged, rfl, -⟩ := opens.step_one draws rfl passes
    rw [Trail.marks_cons_tagged tagged, List.head?_cons, Option.some.injEq, Mark.mk.injEq] at here
    exact here.2.symm
  induction length : rest.length using Nat.strongRecOn generalizing state rest consumed trail other
    with
  | ind bound ih =>
    obtain ⟨entering, leaving, enterTag, leaveTag, enterLow, leaveNormal, choice⟩ :=
      waits.edges_choice draws
    obtain ⟨later, rfl, enters⟩ | ⟨later, rfl, leaves⟩ := choice completes
    · obtain ⟨otherLater, rfl, otherEnters⟩ | ⟨otherLater, rfl, otherLeaves⟩ :=
        choice otherCompletes
      · -- Both skip the same character, over the same edges.
        obtain ⟨edge, untagged, reading⟩ := reads.edge_read draws
        obtain ⟨c, rest', onward, rfl, rfl, next⟩ := reading enters
        obtain ⟨_, _, otherOnward, same, rfl, otherNext⟩ := reading otherEnters
        obtain ⟨rfl, rfl⟩ := List.cons_eq_cons.1 same
        simp only [Trail.marks_cons_untagged enterTag, Trail.marks_cons_untagged untagged]
          at begun otherBegun
        exact .there (.there (ih rest'.length (by simp [← length]) again next otherNext begun
          otherBegun rfl))
      · -- The other one has begun already.
        rw [Trail.marks_cons_untagged leaveTag] at otherBegun
        rw [Trail.marks_cons_untagged enterTag] at begun
        have le := enters.le_of_mark _ (List.mem_of_mem_head? begun)
        have same := atMiddle otherLeaves otherBegun
        dsimp only at le
        omega
    · obtain ⟨otherLater, rfl, otherEnters⟩ | ⟨otherLater, rfl, otherLeaves⟩ :=
        choice otherCompletes
      · apply Trail.Precedes.here
        rw [Edge.before_iff]
        exact Or.inl ⟨leaveNormal, enterLow⟩
      · rw [Trail.marks_cons_untagged leaveTag] at begun otherBegun
        have same := atMiddle leaves begun
        have otherSame := atMiddle otherLeaves otherBegun
        omega

namespace Automaton.Lays

variable {regex : Regex} {input : List Char}

/-- On a completion of a search group 0 spans a match of the expression. -/
theorem exists_matchesAt (lays : automaton.Lays connections (regex.anchored .search))
    {trail : Trail} (completes : automaton.Completes input 0 automaton.initial trail) :
    ∃ first limit, regex.MatchesAt input first limit ∧ trail.marks.extents 0 = [(first, limit)] ∧
      trail.marks.head? = some ⟨⟨0, .opening⟩, first⟩ := by
  obtain ⟨front, word, behind, rfl, -, entire⟩ :=
    (Regex.marks_anchored_iff .search).1 (lays.marks completes)
  exact ⟨front.length, front.length + word.length,
    Regex.matchesAt_append (Regex.spells_group_iff.1 entire.spells), entire.extents_group,
    entire.head?_group.1⟩

/-- Wherever the expression matches, group 0 begins on some run. -/
theorem exists_isRun_of_matchesAt (lays : automaton.Lays connections (regex.anchored .search))
    {first limit : Nat} (here : regex.MatchesAt input first limit) :
    ∃ run, automaton.IsRun input run ∧ run.marks.head? = some ⟨⟨0, .opening⟩, first⟩ := by
  obtain ⟨front, word, behind, rfl, spells, rfl, rfl⟩ := here.exists_append
  obtain ⟨marking, entire⟩ := (Regex.spells_group_iff.2 spells).exists_marks 0 front.length
  have anchored : (regex.anchored .search).Marks 0 0 (front ++ (word ++ behind)) [] marking := by
    rw [Regex.marks_anchored_iff]
    refine ⟨front, word, behind, rfl, ?_, entire⟩
    intro full
    cases full
  obtain ⟨trail, completes, rfl⟩ := lays.exists_completes anchored
  obtain ⟨run, isRun, sublist⟩ := completes.exists_isRun lays.orderly
  -- The run leaves out loops of the completion, so it has no other mark for the beginning.
  obtain ⟨place, _, -, -, head⟩ := lays.exists_matchesAt isRun.completes
  have inTrail : ⟨⟨0, .opening⟩, place⟩ ∈ trail.marks :=
    (sublist.filterMap _).subset (List.mem_of_mem_head? head)
  have same := entire.head?_group.2 _ inTrail rfl
  dsimp only at same
  rw [same] at head
  exact ⟨run, isRun, head⟩

/-- Of two completions of a search the one on which group 0 begins earlier comes first. -/
theorem precedes_of_earlier (lays : automaton.Lays connections (regex.anchored .search))
    {trail other : Trail} (completes : automaton.Completes input 0 automaton.initial trail)
    (otherCompletes : automaton.Completes input 0 automaton.initial other) {early late : Nat}
    (begun : trail.marks.head? = some ⟨⟨0, .opening⟩, early⟩)
    (otherBegun : other.marks.head? = some ⟨⟨0, .opening⟩, late⟩) (lt : early < late) :
    trail.Precedes other := by
  obtain ⟨middle, filler, _, entire, -⟩ := lays.lays
  obtain ⟨first, last, waits, reads, again⟩ := filler
  obtain ⟨begins, _, opens, -, -⟩ := entire
  exact reads.precedes_of_earlier lays.draws again opens waits completes otherCompletes begun
    otherBegun lt

end Automaton.Lays

namespace Regex

/-- A search with a new matcher finds a match if and only if the expression matches somewhere in the
input, and then it reports a match that begins as early as any. -/
theorem matchOnce_leftmost (regex : Regex) (merge : Bool) (input : String)
    (enough : regex.NamesSuffice ⟨.search, merge⟩ input) :
    ∃ result, regex.matchOnce ⟨.search, merge⟩ input = .ok result ∧
      (result.isMatch = true ↔ ∃ first limit, regex.MatchesAt input.toList first limit) ∧
      (result.isMatch = true → ∃ first limit : Nat, result.start = first ∧
        result.last + 1 = limit ∧ regex.MatchesAt input.toList first limit ∧
        ∀ other otherLimit, regex.MatchesAt input.toList other otherLimit → first ≤ other) := by
  obtain ⟨automaton, connections, result, built, lays, numbers, success, reported⟩ :=
    matchOnce_spec enough
  refine ⟨result, success, ?_⟩
  obtain ⟨rfl, noRun⟩ | ⟨captures, run, rfl, least, groups⟩ := lays.orderly.report_cases reported
  · constructor
    · constructor
      · intro isMatch
        cases isMatch
      · intro some
        obtain ⟨first, limit, here⟩ := some
        obtain ⟨run, isRun, -⟩ := lays.exists_isRun_of_matchesAt here
        exact absurd ⟨run, isRun⟩ noRun
    · intro isMatch
      cases isMatch
  · obtain ⟨first, limit, here, entire, head⟩ := lays.exists_matchesAt least.1.completes
    refine ⟨⟨fun _ => ⟨first, limit, here⟩, fun _ => rfl⟩, fun _ => ?_⟩
    have history : captures.history 0 = .ok [⟨first, (limit : Int) - 1⟩] := by
      rw [Captures.history_eq_spans groups numbers (Nat.succ_pos _), Marking.spans, entire]
      rfl
    have span : (MatchResult.matched captures).entire = ⟨first, (limit : Int) - 1⟩ := by
      rw [MatchResult.entire, MatchResult.spanOf, MatchResult.group, Captures.get, history]
      rfl
    refine ⟨first, limit, ?_, ?_, here, ?_⟩
    · rw [MatchResult.start, span]
    · rw [MatchResult.last, span]
      dsimp only
      omega
    · intro other otherLimit otherHere
      obtain ⟨otherRun, isRun, otherHead⟩ := lays.exists_isRun_of_matchesAt otherHere
      by_contra earlier
      have precedes := lays.precedes_of_earlier isRun.completes least.1.completes otherHead head
        (Nat.lt_of_not_le earlier)
      have different : otherRun ≠ run := by
        rintro rfl
        exact precedes.asymm precedes
      exact precedes.asymm (least.2 otherRun isRun different)

/-- A loop whose body may read nothing, in front of the end of the input. -/
def loopBeforeEnd : Regex :=
  .cat [.rep .plus .greedy (.rep .star .lazy (.lit 'a')), .rep .opt .greedy .atEnd, .lit 'b']

theorem matchOnce_leftmost_nullable_loop :
    ∃ result, loopBeforeEnd.matchOnce ⟨.search, true⟩ "caab" = .ok result ∧
      result.isMatch = true ∧ result.start = 1 ∧ result.last = 3 ∧
      loopBeforeEnd.MatchesAt "caab".toList 1 4 ∧
      ∀ other otherLimit, loopBeforeEnd.MatchesAt "caab".toList other otherLimit → 1 ≤ other := by
  have run : (loopBeforeEnd.matchOnce ⟨.search, true⟩ "caab").map (fun result =>
      (result.isMatch, result.start, result.last)) = .ok (true, 1, 3) := by cbv
  obtain ⟨result, success, -, found⟩ :=
    matchOnce_leftmost loopBeforeEnd true "caab" (namesSuffice_of_map_eq_ok run)
  rw [success] at run
  have outcome := Except.ok.inj run
  simp only [Prod.mk.injEq] at outcome
  obtain ⟨isMatch, begins, ends⟩ := outcome
  obtain ⟨first, limit, start, last, here, least⟩ := found isMatch
  obtain ⟨rfl, rfl⟩ : first = 1 ∧ limit = 4 := by omega
  exact ⟨result, success, isMatch, begins, ends, here, least⟩

end Regex

end TaggedRegex
