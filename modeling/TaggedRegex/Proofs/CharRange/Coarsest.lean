import Mathlib.Data.List.Sort
import TaggedRegex.Proofs.Guarded.Partition

set_option autoImplicit false

/-!
An alphabet cuts no more than it must. Where a part ends, one of the ranges begins or has just
ended, so two characters are kept together unless some range tells characters between them apart.
-/

namespace TaggedRegex

/-- The range holds all characters from `c` to `d`, or none of them. -/
def CharRange.Uniform (range : CharRange) (c d : Char) : Prop :=
  (∀ e, c ≤ e → e ≤ d → e ∈ range) ∨ ∀ e, c ≤ e → e ≤ d → e ∉ range

namespace Alphabet

variable {ranges others : List CharRange}

/-! ### Order and repetition -/

theorem cuts_congr (same : ∀ range, range ∈ others ↔ range ∈ ranges) :
    cuts others = cuts ranges := by
  apply (sorted_cuts others).eq_of_mem_iff (sorted_cuts ranges)
  intro cut
  simp only [mem_cuts, same]

theorem partsBetween_congr_ranges (same : ∀ range, range ∈ others ↔ range ∈ ranges)
    (cuts : List Nat) : partsBetween others cuts = partsBetween ranges cuts := by
  have inside : (fun part : CharRange => others.any fun range => decide (part.lo ∈ range)) =
      fun part => ranges.any fun range => decide (part.lo ∈ range) := by
    funext part
    rw [Bool.eq_iff_iff, List.any_eq_true, List.any_eq_true]
    simp only [same]
  fun_induction partsBetween ranges cuts with
  | case1 first limit rest ih => rw [partsBetween, inside, ih]
  | case2 cuts short =>
    unfold partsBetween
    split
    · exact absurd rfl (short _ _ _)
    · rfl

theorem ofRanges_congr (same : ∀ range, range ∈ others ↔ range ∈ ranges) :
    ofRanges others = ofRanges ranges := by
  rw [ofRanges, ofRanges, cuts_congr same, partsBetween_congr_ranges same]

/-! ### Parts as wide as possible -/

/-- No range tells characters of one part apart. -/
theorem uniform_of_find? {part : CharRange} {c d : Char}
    (found : (ofRanges ranges).find? c = some part) (inside : d ∈ part) {range : CharRange}
    (member : range ∈ ranges) : range.Uniform c d := by
  have begins := mem_of_find? _ _ _ found
  have alike : ∀ e, c ≤ e → e ≤ d → (c ∈ range ↔ e ∈ range) := by
    intro e le le'
    have between : e ∈ part := ⟨Char.le_trans begins.1 le, Char.le_trans le' inside.2⟩
    exact mem_range_iff_of_find? found between member
  by_cases covered : c ∈ range
  · exact Or.inl fun e le le' => (alike e le le').1 covered
  · exact Or.inr fun e le le' within => covered ((alike e le le').2 within)

/-- Behind a part some range begins, or one has ended with the part. -/
theorem exists_range_at_end {part : CharRange} (member : part ∈ partsBetween ranges (cuts ranges)) :
    ∃ range ∈ ranges, part.hi.ordinal.val + 1 = range.lo.ordinal.val ∨ part.hi = range.hi := by
  obtain ⟨first, limit, ⟨-, isCut, -⟩, found, -⟩ := (mem_partsBetween (sorted_cuts ranges)).1 member
  obtain ⟨-, ends⟩ := CharRange.bounds_ofOrdinals? found
  obtain ⟨range, rangeMember, begins | ended⟩ := (mem_cuts ranges limit).1 isCut
  · exact ⟨range, rangeMember, Or.inl (ends.trans begins)⟩
  · refine ⟨range, rangeMember, Or.inr ?_⟩
    rw [← Char.ordinal_inj, Fin.ext_iff]
    omega

/-- Characters that no range tells apart lie in one part. -/
theorem mem_of_uniform {part : CharRange} {c d : Char}
    (found : (ofRanges ranges).find? c = some part) (le : c ≤ d)
    (uniform : ∀ range ∈ ranges, range.Uniform c d) : d ∈ part := by
  have inside := mem_of_find? _ _ _ found
  refine ⟨Char.le_trans inside.1 le, ?_⟩
  rw [← Char.not_lt]
  intro beyond
  obtain ⟨range, member, edge⟩ := exists_range_at_end (mem_parts_of_find? found)
  have told := uniform range member
  have bounds := range.lo_le_hi
  have upper := inside.2
  simp only [CharRange.Uniform, CharRange.mem_iff_ordinal, Char.le_iff_ordinal_le,
    Char.lt_iff_ordinal_lt, Fin.le_def, Fin.lt_def] at *
  -- The end of the part lies between the two characters, and so does what comes next.
  rcases edge with begins | ended
  · rcases told with all | none
    · have := all part.hi (by omega) (by omega)
      omega
    · exact none range.lo (by omega) (by omega) ⟨Nat.le_refl _, bounds⟩
  · rw [ended] at beyond upper
    rcases told with all | none
    · have := all d (by omega) (by omega)
      omega
    · exact none range.hi (by omega) (by omega) ⟨bounds, Nat.le_refl _⟩

/-! ### Look-up -/

theorem find?_eq_some_iff (ranges : List CharRange) (c : Char) (part : CharRange) :
    (ofRanges ranges).find? c = some part ↔ part ∈ (ofRanges ranges).ranges ∧ c ∈ part := by
  constructor
  · intro found
    exact ⟨mem_ranges_of_find? found, mem_of_find? _ _ _ found⟩
  · rintro ⟨member, inside⟩
    exact find?_ofRanges (List.mem_toArray.1 member) inside

theorem exists_find?_iff (ranges : List CharRange) (c : Char) :
    (∃ part, (ofRanges ranges).find? c = some part) ↔ ∃ range ∈ ranges, c ∈ range := by
  constructor
  · rintro ⟨part, found⟩
    obtain ⟨-, -, -, -, range, member, begins⟩ :=
      (mem_partsBetween (sorted_cuts ranges)).1 (mem_parts_of_find? found)
    exact ⟨range, member, (mem_range_iff_of_find? found part.lo_mem member).2 begins⟩
  · rintro ⟨range, member, inside⟩
    obtain ⟨part, partMember, within⟩ := exists_part member inside
    exact ⟨part, find?_ofRanges partMember within⟩

/-- The sweep finds the coarsest alphabet, whatever the order of the ranges and however often each
of them occurs. The parts are in increasing order. They cover what the ranges cover, and the look-up
finds the only part that holds a character. Two characters are in one part exactly if every range
holds all characters from one to the other or none of them. -/
theorem partition_coarsest (ranges : List CharRange) :
    ∃ alphabet, partition ranges = .ok alphabet ∧ ofRanges ranges = alphabet ∧
      (∀ others, (∀ range, range ∈ others ↔ range ∈ ranges) →
        partition others = .ok alphabet) ∧
      (alphabet.ranges.toList.Pairwise fun a b => a.hi < b.lo) ∧
      (∀ c, (∃ part, alphabet.find? c = some part) ↔ ∃ range ∈ ranges, c ∈ range) ∧
      (∀ c part, alphabet.find? c = some part ↔ part ∈ alphabet.ranges ∧ c ∈ part) ∧
      ∀ c d, c ≤ d → (∃ range ∈ ranges, c ∈ range) → (∃ range ∈ ranges, d ∈ range) →
        (alphabet.find? c = alphabet.find? d ↔ ∀ range ∈ ranges, range.Uniform c d) := by
  refine ⟨ofRanges ranges, partition_eq ranges, rfl, ?_, ?_, exists_find?_iff ranges,
    find?_eq_some_iff ranges, ?_⟩
  · intro others same
    rw [partition_eq, ofRanges_congr same]
  · exact sorted_partsBetween (sorted_cuts ranges)
  · intro c d le cCovered dCovered
    obtain ⟨part, found⟩ := (exists_find?_iff ranges c).2 cCovered
    constructor
    · intro together range member
      rw [found] at together
      exact uniform_of_find? found (mem_of_find? _ _ _ together.symm) member
    · intro uniform
      rw [found, find?_eq_of_mem found (mem_of_uniform found le uniform)]

end Alphabet

end TaggedRegex
