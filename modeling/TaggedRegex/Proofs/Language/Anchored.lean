import TaggedRegex.Proofs.Automaton.Anchored
import TaggedRegex.Proofs.Language.Marks

set_option autoImplicit false

/-!
Matches in the middle of an input. A match of the anchored expression against all of the input is a
match of the expression itself against a part of it, between the two marks of group 0.
-/

namespace TaggedRegex

namespace Regex

/-- The expression matches the characters of the input from position `first` on and before position
`limit`; what follows them decides whether the input has ended. -/
def MatchesAt (regex : Regex) (input : List Char) (first limit : Nat) : Prop :=
  first ≤ limit ∧ limit ≤ input.length ∧
    regex.Spells ((input.take limit).drop first) (input.drop limit)

variable {regex : Regex} {input : List Char}

theorem matchesAt_append {front word behind : List Char} (spells : regex.Spells word behind) :
    regex.MatchesAt (front ++ (word ++ behind)) front.length (front.length + word.length) := by
  refine ⟨Nat.le_add_right _ _, by simp, ?_⟩
  rw [← List.append_assoc, ← List.length_append, List.take_left, List.drop_left, List.drop_left]
  exact spells

theorem MatchesAt.exists_append {first limit : Nat} (here : regex.MatchesAt input first limit) :
    ∃ front word behind, input = front ++ (word ++ behind) ∧ regex.Spells word behind ∧
      front.length = first ∧ first + word.length = limit := by
  obtain ⟨le, inside, spells⟩ := here
  refine ⟨input.take first, (input.take limit).drop first, input.drop limit, ?_, spells, ?_, ?_⟩
  · rw [← List.append_assoc, ← Nat.min_eq_left le, ← List.take_take, Nat.min_eq_left le,
      List.take_append_drop, List.take_append_drop]
  · rw [List.length_take]
    omega
  · rw [List.length_drop, List.length_take]
    omega

/-- The filler of a search reads anything, and marks nothing. -/
theorem marks_filler (greed : Greed) (number consumed : Nat) (word behind : List Char) :
    Marks (.rep .star greed .any) number consumed word behind [] := by
  induction word generalizing consumed with
  | nil => exact .starDone greed .any number consumed behind
  | cons c rest ih => exact .starMore (.any number consumed c (rest ++ behind)) (ih (consumed + 1))

/-- A match of the anchored expression is a match of the expression in group 0, against all of the
input unless this is a search. -/
theorem marks_anchored_iff (anchor : Anchor) {marking : Marking} :
    (regex.anchored anchor).Marks 0 0 input [] marking ↔
      ∃ front word behind, input = front ++ (word ++ behind) ∧
        (anchor = .full → front = [] ∧ behind = []) ∧
        (Regex.group regex).Marks 0 front.length word behind marking := by
  cases anchor with
  | full =>
    constructor
    · intro marks
      exact ⟨[], input, [], by simp, fun _ => ⟨rfl, rfl⟩, marks⟩
    · intro parts
      obtain ⟨front, word, behind, rfl, nothing, marks⟩ := parts
      obtain ⟨rfl, rfl⟩ := nothing rfl
      rw [List.nil_append, List.append_nil]
      exact marks
  | search =>
    constructor
    · intro marks
      cases marks with
      | @catCons _ _ _ _ front _ _ _ _ filler others =>
        cases others with
        | @catCons _ _ _ _ word _ _ _ _ entire others =>
          cases others with
          | @catCons _ _ _ _ behind _ _ _ _ rear nothing =>
            cases nothing
            obtain rfl := filler.eq_nil rfl
            obtain rfl := rear.eq_nil rfl
            simp only [List.append_nil, List.nil_append, Nat.zero_add] at entire ⊢
            refine ⟨front, word, behind, rfl, ?_, entire⟩
            intro same
            cases same
    · intro parts
      obtain ⟨front, word, behind, rfl, -, marks⟩ := parts
      have rear : (Regex.cat [.rep .star .greedy .any]).Marks (0 + 0 + (regex.groupCount + 1))
          (0 + front.length + word.length) behind [] [] := by
        have filler := marks_filler .greedy (0 + 0 + (regex.groupCount + 1))
          (0 + front.length + word.length) behind []
        rw [← List.append_nil behind, ← List.append_nil ([] : Marking)]
        exact .catCons filler (.catNil _ _ [])
      have filler := marks_filler .lazy 0 0 front (word ++ behind)
      rw [← List.nil_append marking, ← List.append_nil marking]
      refine .catCons ?_ (.catCons ?_ rear)
      · rw [List.append_nil]
        exact filler
      · rw [List.append_nil, Nat.zero_add front.length]
        exact marks

end Regex

end TaggedRegex
