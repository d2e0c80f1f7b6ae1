import TaggedRegex.Proofs.CharRange.Alphabet
import TaggedRegex.Proofs.Trail.Survey

set_option autoImplicit false

/-!
Characters of one part of the alphabet are read over the same edges, and a character outside the
alphabet over none, so walkers take the same step on all characters of a part.
-/

namespace TaggedRegex

variable {automaton : Automaton}

namespace Automaton

theorem range_mem_inputRanges {row : Row} (member : row ∈ automaton.rows) {range : CharRange}
    (label : row.label = .chars range) : range ∈ automaton.inputRanges := by
  rw [inputRanges, List.mem_filterMap]
  exact ⟨row, member, by rw [label]; rfl⟩

theorem onChar_congr {part : CharRange} {c d : Char}
    (found : (Alphabet.ofRanges automaton.inputRanges).find? c = some part) (inside : d ∈ part)
    (state : StateId) : automaton.onChar state d = automaton.onChar state c := by
  have same : ∀ row ∈ automaton.rows,
      decide (row.source = state ∧ row.label.reads d = true) =
        decide (row.source = state ∧ row.label.reads c = true) := by
    intro row member
    rw [decide_eq_decide]
    cases label : row.label with
    | chars range =>
      have iff := Alphabet.mem_range_iff_of_find? found inside (range_mem_inputRanges member label)
      show _ ∧ decide (d ∈ range) = true ↔ _ ∧ decide (c ∈ range) = true
      rw [decide_eq_true_eq, decide_eq_true_eq, iff]
    | atEnd => exact Iff.rfl
    | epsilon => exact Iff.rfl
  rw [onChar, onChar, List.filter_congr same]

theorem onChar_eq_nil {c : Char}
    (outside : (Alphabet.ofRanges automaton.inputRanges).find? c = none) (state : StateId) :
    automaton.onChar state c = [] := by
  have noRow : (automaton.rows.filter fun row => row.source = state ∧ row.label.reads c) = [] := by
    rw [List.filter_eq_nil_iff]
    intro row member reads
    rw [decide_eq_true_eq] at reads
    cases label : row.label with
    | chars range =>
      have absent := Alphabet.not_mem_of_find?_eq_none outside
        (range_mem_inputRanges member label)
      rw [label] at reads
      exact absent (of_decide_eq_true reads.2)
    | atEnd =>
      rw [label] at reads
      cases reads.2
    | epsilon =>
      rw [label] at reads
      cases reads.2
  rw [onChar, noRow, List.flatMap_nil, List.mergeSort_nil]

end Automaton

namespace Walker

theorem advance_char_congr {part : CharRange} {c d : Char}
    (found : (Alphabet.ofRanges automaton.inputRanges).find? c = some part) (inside : d ∈ part)
    (consumed : Nat) (walkers : List Walker) :
    advance automaton (.char d) consumed walkers =
      advance automaton (.char c) consumed walkers := by
  have same : Survey.consume automaton (.char d) consumed =
      Survey.consume automaton (.char c) consumed := by
    funext survey walker
    unfold Survey.consume
    dsimp only
    rw [Automaton.onChar_congr found inside]
    rfl
  rw [advance, advance, same]

@[simp] theorem advance_nil (step : Step) (consumed : Nat) :
    advance automaton step consumed [] = [] := rfl

@[simp] theorem afterChars_nil (consumed : Nat) (input : List Char) :
    afterChars automaton [] consumed input = [] := by
  induction input generalizing consumed with
  | nil => rfl
  | cons c rest ih => rw [afterChars, advance_nil, ih]

theorem advance_char_eq_nil {c : Char}
    (outside : (Alphabet.ofRanges automaton.inputRanges).find? c = none) (consumed : Nat)
    (walkers : List Walker) : advance automaton (.char c) consumed walkers = [] := by
  have still : ∀ survey walker,
      Survey.consume automaton (.char c) consumed survey walker = survey := by
    intro survey walker
    unfold Survey.consume
    dsimp only
    rw [Automaton.onChar_eq_nil outside, List.map_nil, Survey.explore_nil]
  have folded : ∀ survey, walkers.foldl (Survey.consume automaton (.char c) consumed) survey =
      survey := by
    intro survey
    induction walkers with
    | nil => rfl
    | cons walker rest ih => rw [List.foldl_cons, still, ih]
  rw [advance, folded]
  rfl

end Walker

end TaggedRegex
