import TaggedRegex.Proofs.Language.Routes
import TaggedRegex.Proofs.Matching.LeastRun

set_option autoImplicit false

/-!
Membership. A matcher that is asked about the whole input matches exactly the words of the language
of the expression.
-/

namespace TaggedRegex

variable {automaton : Automaton} {connections : List Connection}

/-- Every match of the whole input is a completion that crosses its marks. -/
theorem Automaton.Lays.exists_completes {regex : Regex} (lays : automaton.Lays connections regex)
    {input : List Char} {marking : Marking} (marks : regex.Marks 0 0 input [] marking) :
    ∃ trail, automaton.Completes input 0 automaton.initial trail ∧ trail.marks = marking := by
  have ended : automaton.Completes [] (0 + input.length) automaton.accept [] := .done _
  have route := Regex.routes lays.draws regex lays.lays marks ended
  rw [List.append_nil, Trail.marks_nil, List.append_nil] at route
  exact route

namespace Regex

/-- A run over the input exists if and only if the expression matches the input. -/
theorem exists_isRun_iff_spells {regex : Regex} (lays : automaton.Lays connections regex)
    (input : List Char) : (∃ run, automaton.IsRun input run) ↔ regex.Spells input [] := by
  constructor
  · rintro ⟨run, isRun⟩
    exact (lays.traversed isRun.completes).1
  · intro spells
    obtain ⟨marking, marks⟩ := spells.exists_marks 0 0
    obtain ⟨trail, completes, -⟩ := lays.exists_completes marks
    obtain ⟨run, isRun, -⟩ := completes.exists_isRun lays.orderly
    exact ⟨run, isRun⟩

theorem spells_group_iff {body : Regex} {word behind : List Char} :
    Spells (.group body) word behind ↔ body.Spells word behind := by
  constructor
  · intro spells
    cases spells with
    | group spelled => exact spelled
  · exact .group

/-- A new matcher that is asked about the whole input matches it if and only if the input is a word
of the language of the expression. -/
theorem isMatch_iff_spells (regex : Regex) (merge : Bool) (input : String)
    (enough : regex.NamesSuffice ⟨.full, merge⟩ input) :
    ∃ result, regex.matchOnce ⟨.full, merge⟩ input = .ok result ∧
      (result.isMatch = true ↔ regex.Spells input.toList []) := by
  rcases matchOnce_spec enough with
    ⟨automaton, connections, result, -, lays, -, success, reported⟩
  refine ⟨result, success, ?_⟩
  have asGroup : regex.Spells input.toList [] ↔ ∃ run, automaton.IsRun input.toList run := by
    rw [exists_isRun_iff_spells lays]
    exact spells_group_iff.symm
  rw [asGroup]
  rcases lays.orderly.report_cases reported with
    ⟨rfl, noRun⟩ | ⟨captures, run, rfl, least, -⟩
  · constructor
    · intro isMatch
      cases isMatch
    · intro some
      exact absurd some noRun
  · exact ⟨fun _ => ⟨run, least.1⟩, fun _ => rfl⟩

/-- The end of the input in the middle of an expression, within a loop. -/
def endInLoop : Regex := .cat [.lit 'a', .rep .star .greedy (.alt [.atEnd, .any])]

theorem isMatch_iff_spells_atEnd_loop :
    ∃ result, endInLoop.matchOnce ⟨.full, false⟩ "ab" = .ok result ∧ result.isMatch = true ∧
      endInLoop.Spells "ab".toList [] := by
  have run : (endInLoop.matchOnce ⟨.full, false⟩ "ab").map MatchResult.isMatch = .ok true := by cbv
  obtain ⟨result, success, spelled⟩ :=
    isMatch_iff_spells endInLoop false "ab" (namesSuffice_of_map_eq_ok run)
  rw [success] at run
  have isMatch := Except.ok.inj run
  exact ⟨result, success, isMatch, spelled.1 isMatch⟩

end Regex

end TaggedRegex
