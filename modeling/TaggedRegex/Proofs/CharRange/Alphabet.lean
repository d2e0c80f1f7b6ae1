import TaggedRegex.CharRange.Alphabet

set_option autoImplicit false

/-!
The parts of an alphabet. A part that is found for a character holds only characters that lie in
the same ranges, and a character without a part lies in none. Parts that share a character are
equal.
-/

namespace TaggedRegex

theorem CharRange.mem_iff_ordinal (c : Char) (range : CharRange) :
    c ∈ range ↔
      range.lo.ordinal.val ≤ c.ordinal.val ∧ c.ordinal.val ≤ range.hi.ordinal.val := by
  rw [mem_def, Char.le_iff_ordinal_le, Char.le_iff_ordinal_le, Fin.le_def, Fin.le_def]

theorem CharRange.lo_mem (range : CharRange) : range.lo ∈ range :=
  ⟨Char.le_refl _, range.lo_le_hi⟩

theorem CharRange.mem_all (c : Char) : c ∈ all := by
  have below : c.val.toNat ≤ 0x10ffff := by
    have valid := c.valid
    unfold UInt32.isValidChar Nat.isValidChar at valid
    omega
  constructor
  · show (0 : Nat) ≤ c.val.toNat
    omega
  · show c.val.toNat ≤ 0x10ffff
    exact below

theorem CharRange.ofOrdinals?_isSome {first limit : Nat} (lt : first < limit)
    (le : limit ≤ Char.numCodePoints) : ∃ range, ofOrdinals? first limit = some range := by
  refine ⟨_, dif_pos ⟨lt, le⟩⟩

theorem CharRange.bounds_ofOrdinals? {first limit : Nat} {range : CharRange}
    (found : ofOrdinals? first limit = some range) :
    range.lo.ordinal.val = first ∧ range.hi.ordinal.val + 1 = limit := by
  unfold ofOrdinals? at found
  split at found
  · rename_i inside
    obtain rfl := Option.some.inj found
    rw [Char.ordinal_ofOrdinal, Char.ordinal_ofOrdinal]
    exact ⟨rfl, by simp only; omega⟩
  · cases found

namespace Alphabet

/-! ### Cuts -/

theorem sorted_insertCut (cut : Nat) (cuts : List Nat) (sorted : cuts.Pairwise (· < ·)) :
    (insertCut cut cuts).Pairwise (· < ·) := by
  induction cuts with
  | nil => simp [insertCut]
  | cons first rest ih =>
    obtain ⟨below, restSorted⟩ := List.pairwise_cons.1 sorted
    rw [insertCut]
    split
    · rename_i lt
      rw [List.pairwise_cons]
      refine ⟨?_, sorted⟩
      intro other member
      rcases List.mem_cons.1 member with rfl | later
      · exact lt
      · exact Nat.lt_trans lt (below other later)
    · split
      · exact sorted
      · rw [List.pairwise_cons]
        refine ⟨?_, ih restSorted⟩
        intro other member
        rcases (mem_insertCut cut rest other).1 member with rfl | later
        · omega
        · exact below other later

theorem sorted_cuts (ranges : List CharRange) : (cuts ranges).Pairwise (· < ·) := by
  unfold cuts
  induction ranges with
  | nil => exact List.Pairwise.nil
  | cons range ranges ih => exact sorted_insertCut _ _ (sorted_insertCut _ _ ih)

theorem mem_cuts (ranges : List CharRange) (cut : Nat) :
    cut ∈ cuts ranges ↔ ∃ range ∈ ranges,
      cut = range.lo.ordinal.val ∨ cut = range.hi.ordinal.val + 1 := by
  unfold cuts
  induction ranges with
  | nil => simp
  | cons range ranges ih =>
    rw [List.foldr_cons, mem_insertCut, mem_insertCut, ih]
    simp only [List.mem_cons, exists_eq_or_imp, or_assoc]

/-- `first` and `limit` are cuts, and no other cut lies between them. -/
def Adjacent (cuts : List Nat) (first limit : Nat) : Prop :=
  first ∈ cuts ∧ limit ∈ cuts ∧ first < limit ∧ ∀ cut ∈ cuts, cut ≤ first ∨ limit ≤ cut

/-- Two numbers with the same cuts below them lie in the same ranges. -/
theorem Adjacent.mem_iff {ranges : List CharRange} {first limit : Nat}
    (adjacent : Adjacent (cuts ranges) first limit) {range : CharRange} (member : range ∈ ranges)
    {c d : Char} (cInside : first ≤ c.ordinal.val ∧ c.ordinal.val < limit)
    (dInside : first ≤ d.ordinal.val ∧ d.ordinal.val < limit) : c ∈ range ↔ d ∈ range := by
  obtain ⟨-, -, -, between⟩ := adjacent
  have lo := between _ ((mem_cuts ranges _).2 ⟨range, member, Or.inl rfl⟩)
  have hi := between _ ((mem_cuts ranges _).2 ⟨range, member, Or.inr rfl⟩)
  rw [CharRange.mem_iff_ordinal, CharRange.mem_iff_ordinal]
  omega

/-! ### Parts -/

/-- A part fills the space between two neighbouring cuts and begins inside one of the ranges. -/
theorem mem_partsBetween {ranges : List CharRange} {cuts : List Nat}
    (sorted : cuts.Pairwise (· < ·)) {part : CharRange} :
    part ∈ partsBetween ranges cuts ↔
      ∃ first limit, Adjacent cuts first limit ∧
        CharRange.ofOrdinals? first limit = some part ∧ ∃ range ∈ ranges, part.lo ∈ range := by
  induction cuts with
  | nil => simp [partsBetween, Adjacent]
  | cons first cuts ih =>
    obtain ⟨below, restSorted⟩ := List.pairwise_cons.1 sorted
    cases cuts with
    | nil =>
      simp only [partsBetween, Adjacent, List.mem_singleton]
      constructor
      · intro member
        cases member
      · rintro ⟨a, b, ⟨rfl, rfl, lt, -⟩, -⟩
        omega
    | cons limit rest =>
      have first_lt : first < limit := below limit (by simp)
      have afterLimit : ∀ cut ∈ limit :: rest, limit ≤ cut := by
        intro cut member
        rcases List.mem_cons.1 member with rfl | later
        · exact Nat.le_refl _
        · exact Nat.le_of_lt ((List.pairwise_cons.1 restSorted).1 cut later)
      rw [partsBetween, List.mem_append, ih restSorted, Option.mem_toList,
        Option.filter_eq_some_iff, List.any_eq_true]
      simp only [decide_eq_true_eq]
      constructor
      · rintro (⟨found, inside⟩ | ⟨a, b, ⟨aMem, bMem, lt, between⟩, found, inside⟩)
        · refine ⟨first, limit, ⟨by simp, by simp, first_lt, ?_⟩, found, inside⟩
          intro cut member
          rcases List.mem_cons.1 member with rfl | later
          · exact Or.inl (Nat.le_refl _)
          · exact Or.inr (afterLimit cut later)
        · refine ⟨a, b, ⟨List.mem_cons_of_mem _ aMem, List.mem_cons_of_mem _ bMem, lt, ?_⟩, found,
            inside⟩
          intro cut member
          rcases List.mem_cons.1 member with rfl | later
          · have := afterLimit a aMem
            omega
          · exact between cut later
      · rintro ⟨a, b, ⟨aMem, bMem, lt, between⟩, found, inside⟩
        have bLater : b ∈ limit :: rest := by
          rcases List.mem_cons.1 bMem with rfl | later
          · rcases List.mem_cons.1 aMem with rfl | earlier
            · omega
            · have := below a earlier
              omega
          · exact later
        rcases List.mem_cons.1 aMem with rfl | later
        · left
          have atLimit := between limit (by simp)
          have := afterLimit b bLater
          obtain rfl : b = limit := by omega
          exact ⟨found, inside⟩
        · right
          exact ⟨a, b, ⟨later, bLater, lt, fun cut member =>
            between cut (List.mem_cons_of_mem _ member)⟩, found, inside⟩

/-- The parts are in increasing order. -/
theorem sorted_partsBetween {ranges : List CharRange} {cuts : List Nat}
    (sorted : cuts.Pairwise (· < ·)) :
    (partsBetween ranges cuts).Pairwise fun a b => a.hi < b.lo := by
  induction cuts with
  | nil => exact List.Pairwise.nil
  | cons first cuts ih =>
    obtain ⟨below, restSorted⟩ := List.pairwise_cons.1 sorted
    cases cuts with
    | nil => exact List.Pairwise.nil
    | cons limit rest =>
      rw [partsBetween, List.pairwise_append]
      refine ⟨?_, ih restSorted, ?_⟩
      · cases (CharRange.ofOrdinals? first limit).filter _ with
        | none => exact List.Pairwise.nil
        | some part => exact List.pairwise_singleton _ _
      · intro part here later member
        obtain ⟨found, -⟩ := Option.filter_eq_some_iff.1 (Option.mem_toList.1 here)
        obtain ⟨a, b, ⟨aMem, -⟩, laterFound, -⟩ := (mem_partsBetween restSorted).1 member
        have partBounds := CharRange.bounds_ofOrdinals? found
        have laterBounds := CharRange.bounds_ofOrdinals? laterFound
        have order : limit ≤ a := by
          rcases List.mem_cons.1 aMem with rfl | inRest
          · exact Nat.le_refl _
          · exact Nat.le_of_lt ((List.pairwise_cons.1 restSorted).1 a inRest)
        rw [Char.lt_iff_ordinal_lt, Fin.lt_def]
        omega

/-- Neighbouring cuts surround every number between two cuts. -/
theorem exists_adjacent {cuts : List Nat} (sorted : cuts.Pairwise (· < ·)) {n low high : Nat}
    (lowMem : low ∈ cuts) (highMem : high ∈ cuts) (lowLe : low ≤ n) (ltHigh : n < high) :
    ∃ first limit, Adjacent cuts first limit ∧ first ≤ n ∧ n < limit := by
  induction cuts generalizing low with
  | nil => cases lowMem
  | cons first cuts ih =>
    obtain ⟨below, restSorted⟩ := List.pairwise_cons.1 sorted
    have firstLe : first ≤ low := by
      rcases List.mem_cons.1 lowMem with rfl | later
      · exact Nat.le_refl _
      · exact Nat.le_of_lt (below low later)
    have highRest : high ∈ cuts := by
      rcases List.mem_cons.1 highMem with rfl | later
      · omega
      · exact later
    cases cuts with
    | nil => cases highRest
    | cons second rest =>
      by_cases here : n < second
      · refine ⟨first, second, ⟨by simp, by simp, below second (by simp), ?_⟩, by omega, here⟩
        intro cut member
        rcases List.mem_cons.1 member with rfl | later
        · exact Or.inl (Nat.le_refl _)
        · rcases List.mem_cons.1 later with rfl | inRest
          · exact Or.inr (Nat.le_refl _)
          · exact Or.inr (Nat.le_of_lt ((List.pairwise_cons.1 restSorted).1 cut inRest))
      · obtain ⟨a, b, ⟨aMem, bMem, lt, between⟩, aLe, ltB⟩ :=
          ih restSorted (List.mem_cons_self) highRest (Nat.le_of_not_lt here)
        refine ⟨a, b, ⟨List.mem_cons_of_mem _ aMem, List.mem_cons_of_mem _ bMem, lt, ?_⟩, aLe, ltB⟩
        intro cut member
        rcases List.mem_cons.1 member with rfl | later
        · exact Or.inl (Nat.le_of_lt (below a aMem))
        · exact between cut later

/-- A covered character lies in a part. -/
theorem exists_part {ranges : List CharRange} {range : CharRange} {c : Char}
    (member : range ∈ ranges) (inside : c ∈ range) :
    ∃ part ∈ partsBetween ranges (cuts ranges), c ∈ part := by
  have bounds := (CharRange.mem_iff_ordinal c range).1 inside
  obtain ⟨first, limit, adjacent, firstLe, ltLimit⟩ := exists_adjacent (sorted_cuts ranges)
    ((mem_cuts ranges _).2 ⟨range, member, Or.inl rfl⟩)
    ((mem_cuts ranges _).2 ⟨range, member, Or.inr rfl⟩) bounds.1 (by omega)
  have small : limit ≤ Char.numCodePoints := by
    obtain ⟨other, -, rfl | rfl⟩ := (mem_cuts ranges limit).1 adjacent.2.1
    · exact Nat.le_of_lt other.lo.ordinal.isLt
    · exact other.hi.ordinal.isLt
  obtain ⟨part, found⟩ := CharRange.ofOrdinals?_isSome adjacent.2.2.1 small
  have inPart := (CharRange.mem_ofOrdinals? first limit part c found).2 ⟨firstLe, ltLimit⟩
  have loInPart := (CharRange.mem_ofOrdinals? first limit part part.lo found).1 part.lo_mem
  have loInside := (adjacent.mem_iff member ⟨firstLe, ltLimit⟩ loInPart).1 inside
  exact ⟨part, (mem_partsBetween (sorted_cuts ranges)).2
    ⟨first, limit, adjacent, found, range, member, loInside⟩, inPart⟩

/-! ### Look-up -/

/-- The search finds the only part that holds the character. -/
theorem find?_ofRanges {ranges : List CharRange} {part : CharRange} {c : Char}
    (member : part ∈ partsBetween ranges (cuts ranges)) (inside : c ∈ part) :
    (ofRanges ranges).find? c = some part := by
  let parts := partsBetween ranges (cuts ranges)
  have increasing : ∀ (i j : Nat) (a b : CharRange), i < j → parts[i]? = some a →
      parts[j]? = some b → a.hi < b.lo := by
    intro i j a b lt at_i at_j
    obtain ⟨iInside, rfl⟩ := List.getElem?_eq_some_iff.1 at_i
    obtain ⟨jInside, rfl⟩ := List.getElem?_eq_some_iff.1 at_j
    exact List.pairwise_iff_getElem.1 (sorted_partsBetween (sorted_cuts ranges)) i j iInside
      jInside lt
  have before : ∀ (i j : Nat) (a b : CharRange), i < j → parts[i]? = some a →
      parts[j]? = some b → b.lo ≤ c → a.hi < c := by
    intro i j a b lt at_i at_j le
    have order := increasing i j a b lt at_i at_j
    rw [Char.lt_iff_ordinal_lt, Fin.lt_def] at order ⊢
    rw [Char.le_iff_ordinal_le, Fin.le_def] at le
    omega
  obtain ⟨place, at_place⟩ := List.mem_iff_getElem?.1 member
  have point : partitionPoint parts.toArray (fun part => part.hi < c) = place := by
    apply partitionPoint_eq _ _ ?_ place part
    · rw [List.getElem?_toArray]
      exact at_place
    · rw [decide_eq_false_iff_not, Char.not_lt]
      exact inside.2
    · intro j other lt at_j
      rw [List.getElem?_toArray] at at_j
      exact decide_eq_true (before j place other part lt at_j at_place inside.1)
    · intro i j a b le at_i at_j passes
      rw [List.getElem?_toArray] at at_i at_j
      rcases Nat.lt_or_eq_of_le le with lt | rfl
      · have bPasses : b.hi < c := of_decide_eq_true passes
        have bBefore : b.hi ≤ c := Char.not_lt.1 (Char.lt_asymm bPasses)
        exact decide_eq_true (before i j a b lt at_i at_j (Char.le_trans b.lo_le_hi bBefore))
      · rw [Option.some.inj (at_i.symm.trans at_j)]
        exact passes
  rw [find?, show (ofRanges ranges).ranges = parts.toArray from rfl, point, List.getElem?_toArray,
    at_place]
  simp only [Option.filter_some, decide_eq_true inside, if_true]

/-- A part that is found belongs to the alphabet. -/
theorem mem_ranges_of_find? {alphabet : Alphabet} {part : CharRange} {c : Char}
    (found : alphabet.find? c = some part) : part ∈ alphabet.ranges :=
  Array.mem_of_getElem? (Option.filter_eq_some_iff.1 found).1

theorem mem_parts_of_find? {ranges : List CharRange} {part : CharRange} {c : Char}
    (found : (ofRanges ranges).find? c = some part) :
    part ∈ partsBetween ranges (cuts ranges) :=
  List.mem_toArray.1 (mem_ranges_of_find? found)

/-- All characters of a part lie in the same ranges. -/
theorem mem_range_iff_of_find? {ranges : List CharRange} {part : CharRange} {c d : Char}
    (found : (ofRanges ranges).find? c = some part) (inside : d ∈ part) {range : CharRange}
    (member : range ∈ ranges) : c ∈ range ↔ d ∈ range := by
  obtain ⟨first, limit, adjacent, bounds, -⟩ :=
    (mem_partsBetween (sorted_cuts ranges)).1 (mem_parts_of_find? found)
  have cInside := mem_of_find? _ _ _ found
  rw [CharRange.mem_ofOrdinals? first limit part _ bounds] at cInside inside
  exact adjacent.mem_iff member cInside inside

/-- A character without a part lies in no range. -/
theorem not_mem_of_find?_eq_none {ranges : List CharRange} {c : Char}
    (missing : (ofRanges ranges).find? c = none) {range : CharRange} (member : range ∈ ranges) :
    c ∉ range := by
  intro inside
  obtain ⟨part, partMember, cInside⟩ := exists_part member inside
  rw [find?_ofRanges partMember cInside] at missing
  cases missing

/-- Parts that share a character are equal. -/
theorem find?_eq_of_mem {ranges : List CharRange} {part : CharRange} {c d : Char}
    (found : (ofRanges ranges).find? c = some part) (inside : d ∈ part) :
    (ofRanges ranges).find? d = some part :=
  find?_ofRanges (mem_parts_of_find? found) inside

end Alphabet

end TaggedRegex
