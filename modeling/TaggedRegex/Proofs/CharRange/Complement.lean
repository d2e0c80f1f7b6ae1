import Mathlib.Data.List.Sort
import TaggedRegex.CharRange.Complement
import TaggedRegex.Fault
import TaggedRegex.Proofs.CharRange.Alphabet

set_option autoImplicit false

/-!
The complement of ranges. Ranges in increasing order with room between them are the only ones of
their kind that cover what they cover, so what covers the right characters in that form is the
complement, by whatever steps it was found. The sweep from character to character finds it, and none
of its steps fails.
-/

namespace TaggedRegex.CharRange

/-- The character lies in one of the ranges. -/
def Covers (ranges : List CharRange) (c : Char) : Prop := ∃ range ∈ ranges, c ∈ range

/-- The ranges are in increasing order, and some character lies between any two of them. -/
def Canonical (ranges : List CharRange) : Prop :=
  ranges.Pairwise fun a b => ∃ c, a.hi < c ∧ c < b.lo

variable {ranges others rest : List CharRange} {range : CharRange} {c : Char}

theorem covers_cons : Covers (range :: rest) c ↔ c ∈ range ∨ Covers rest c := by
  simp [Covers]

theorem not_covers_nil : ¬ Covers [] c := by
  rintro ⟨range, member, -⟩
  cases member

theorem covers_append : Covers (ranges ++ rest) c ↔ Covers ranges c ∨ Covers rest c := by
  simp only [Covers, List.mem_append, or_and_right, exists_or]

/-! ### One list of ranges in canonical form -/

/-- Behind the end of a range there is a gap of at least one character. -/
theorem Canonical.apart (canonical : Canonical (range :: rest)) (covered : Covers rest c) :
    range.hi.ordinal.val + 2 ≤ c.ordinal.val := by
  obtain ⟨other, member, inside⟩ := covered
  obtain ⟨d, above, below⟩ := (List.pairwise_cons.1 canonical).1 other member
  have from_lo := inside.1
  simp only [Char.lt_iff_ordinal_lt, Char.le_iff_ordinal_le, Fin.lt_def, Fin.le_def] at *
  omega

theorem Canonical.tail (canonical : Canonical (range :: rest)) : Canonical rest :=
  (List.pairwise_cons.1 canonical).2

/-- The first range begins with the least character that is covered. -/
theorem Canonical.lo_le (canonical : Canonical (range :: rest))
    (covered : Covers (range :: rest) c) : range.lo.ordinal.val ≤ c.ordinal.val := by
  have ordered := range.lo_le_hi
  rw [Char.le_iff_ordinal_le, Fin.le_def] at ordered
  rcases covers_cons.1 covered with inside | later
  · exact ((mem_iff_ordinal c range).1 inside).1
  · have := canonical.apart later
    omega

/-- What the later ranges cover is what lies behind the first one. -/
theorem Canonical.covers_rest (canonical : Canonical (range :: rest)) :
    Covers rest c ↔ Covers (range :: rest) c ∧ range.hi.ordinal.val < c.ordinal.val := by
  rw [covers_cons, mem_iff_ordinal]
  constructor
  · intro later
    have := canonical.apart later
    exact ⟨Or.inr later, by omega⟩
  · rintro ⟨inside | later, behind⟩
    · omega
    · exact later

/-- Where the first range ends, the cover ends. -/
theorem Canonical.hi_le {range' : CharRange} {rest' : List CharRange}
    (canonical : Canonical (range :: rest)) (same : range.lo = range'.lo)
    (covers : ∀ c, Covers (range' :: rest') c → Covers (range :: rest) c) :
    range'.hi.ordinal.val ≤ range.hi.ordinal.val := by
  by_contra less
  have ordered := range.lo_le_hi
  have limit := range'.hi.ordinal.isLt
  rw [Char.le_iff_ordinal_le, Fin.le_def] at ordered
  -- The character right behind the first range lies in the other one.
  let next : Char := Char.ofOrdinal ⟨range.hi.ordinal.val + 1, by omega⟩
  have place : next.ordinal.val = range.hi.ordinal.val + 1 := by
    simp only [next, Char.ordinal_ofOrdinal]
  have inside : next ∈ range' := by
    rw [mem_iff_ordinal, place, ← same]
    omega
  rcases covers_cons.1 (covers next (covers_cons.2 (Or.inl inside))) with within | later
  · have := ((mem_iff_ordinal next range).1 within).2
    omega
  · have := canonical.apart later
    omega

theorem eq_of_ordinals {range range' : CharRange}
    (lo : range.lo.ordinal.val = range'.lo.ordinal.val)
    (hi : range.hi.ordinal.val = range'.hi.ordinal.val) : range = range' := by
  obtain ⟨first, last, ordered⟩ := range
  obtain ⟨first', last', ordered'⟩ := range'
  obtain rfl := Char.ordinal_inj.1 (Fin.ext lo)
  obtain rfl := Char.ordinal_inj.1 (Fin.ext hi)
  rfl

/-- Canonical ranges are determined by the characters that they cover. -/
theorem Canonical.unique (canonical : Canonical ranges) (canonical' : Canonical others)
    (same : ∀ c, Covers ranges c ↔ Covers others c) : ranges = others := by
  induction ranges generalizing others with
  | nil =>
    cases others with
    | nil => rfl
    | cons range' rest' =>
      have covered : Covers (range' :: rest') range'.lo := covers_cons.2 (Or.inl range'.lo_mem)
      exact absurd ((same _).2 covered) not_covers_nil
  | cons range rest ih =>
    have begins : Covers (range :: rest) range.lo := covers_cons.2 (Or.inl range.lo_mem)
    cases others with
    | nil => exact absurd ((same _).1 begins) not_covers_nil
    | cons range' rest' =>
      have begins' : Covers (range' :: rest') range'.lo := covers_cons.2 (Or.inl range'.lo_mem)
      have lo : range.lo.ordinal.val = range'.lo.ordinal.val :=
        Nat.le_antisymm (canonical.lo_le ((same _).2 begins'))
          (canonical'.lo_le ((same _).1 begins))
      have lo' : range.lo = range'.lo := Char.ordinal_inj.1 (Fin.ext lo)
      have hi : range.hi.ordinal.val = range'.hi.ordinal.val :=
        Nat.le_antisymm (canonical'.hi_le lo'.symm fun c => (same c).1)
          (canonical.hi_le lo' fun c => (same c).2)
      obtain rfl := eq_of_ordinals lo hi
      congr 1
      apply ih canonical.tail canonical'.tail
      intro c
      rw [canonical.covers_rest, canonical'.covers_rest, same]

/-! ### Gaps -/

theorem covers_ofOrdinals? (first limit : Nat) (le : limit ≤ Char.numCodePoints) :
    Covers (ofOrdinals? first limit).toList c ↔
      first ≤ c.ordinal.val ∧ c.ordinal.val < limit := by
  cases found : ofOrdinals? first limit with
  | none =>
    have empty : ¬ first < limit := by
      intro lt
      obtain ⟨range, some⟩ := ofOrdinals?_isSome lt le
      rw [found] at some
      cases some
    exact ⟨fun covered => absurd covered not_covers_nil, fun between => by omega⟩
  | some range =>
    rw [← mem_ofOrdinals? first limit range c found]
    exact covers_cons.trans (or_iff_left not_covers_nil)

/-- What is not covered, from some character on, lies in a gap. -/
theorem covers_gapsFrom (sorted : ranges.Pairwise fun a b => a.lo ≤ b.lo) (next : Nat) :
    Covers (gapsFrom next ranges) c ↔ next ≤ c.ordinal.val ∧ ¬ Covers ranges c := by
  induction ranges generalizing next with
  | nil =>
    have inside := c.ordinal.isLt
    rw [gapsFrom, covers_ofOrdinals? _ _ (Nat.le_refl _)]
    exact and_congr_right fun _ => ⟨fun _ => not_covers_nil, fun _ => inside⟩
  | cons range rest ih =>
    obtain ⟨below, restSorted⟩ := List.pairwise_cons.1 sorted
    have ordered := range.lo_le_hi
    have limit := range.lo.ordinal.isLt
    -- No later range begins before this one does.
    have behind : Covers rest c → range.lo.ordinal.val ≤ c.ordinal.val := by
      rintro ⟨other, member, inside⟩
      have le := below other member
      have lower := ((mem_iff_ordinal c other).1 inside).1
      rw [Char.le_iff_ordinal_le, Fin.le_def] at le
      omega
    rw [Char.le_iff_ordinal_le, Fin.le_def] at ordered
    rw [gapsFrom, covers_append, covers_ofOrdinals? _ _ (Nat.le_of_lt limit), ih restSorted,
      covers_cons, mem_iff_ordinal]
    by_cases later : Covers rest c
    · have := behind later
      simp only [later, not_true_eq_false, and_false, or_false, or_true, iff_false]
      omega
    · simp only [later, not_false_eq_true, and_true, or_false]
      omega

theorem le_of_mem_gapsFrom {next : Nat} {gap : CharRange} (member : gap ∈ gapsFrom next ranges) :
    next ≤ gap.lo.ordinal.val := by
  induction ranges generalizing next with
  | nil => exact Nat.le_of_eq (bounds_ofOrdinals? (Option.mem_toList.1 member)).1.symm
  | cons range rest ih =>
    rw [gapsFrom, List.mem_append] at member
    rcases member with here | later
    · exact Nat.le_of_eq (bounds_ofOrdinals? (Option.mem_toList.1 here)).1.symm
    · exact Nat.le_trans (Nat.le_max_left ..) (ih later)

theorem canonical_toList (range : Option CharRange) : Canonical range.toList := by
  cases range with
  | none => exact List.Pairwise.nil
  | some range => exact List.pairwise_singleton _ _

/-- The gaps are apart: what ended one of them lies in no other. -/
theorem canonical_gapsFrom (ranges : List CharRange) (next : Nat) :
    Canonical (gapsFrom next ranges) := by
  induction ranges generalizing next with
  | nil => exact canonical_toList _
  | cons range rest ih =>
    rw [gapsFrom, Canonical, List.pairwise_append]
    refine ⟨canonical_toList _, ih _, ?_⟩
    intro gap here later member
    have ends := (bounds_ofOrdinals? (Option.mem_toList.1 here)).2
    have begins := le_of_mem_gapsFrom member
    have ordered := range.lo_le_hi
    refine ⟨range.lo, ?_⟩
    simp only [Char.lt_iff_ordinal_lt, Char.le_iff_ordinal_le, Fin.lt_def, Fin.le_def] at *
    omega

theorem pairwise_lo_complement (ranges : List CharRange) :
    (ranges.mergeSort fun a b => decide (a.lo ≤ b.lo)).Pairwise fun a b => a.lo ≤ b.lo := by
  have trans : ∀ a b c : CharRange, decide (a.lo ≤ b.lo) → decide (b.lo ≤ c.lo) →
      decide (a.lo ≤ c.lo) := by
    intro a b c first second
    simp only [decide_eq_true_eq] at *
    exact Char.le_trans first second
  have total : ∀ a b : CharRange, decide (a.lo ≤ b.lo) || decide (b.lo ≤ a.lo) := by
    intro a b
    simp only [Bool.or_eq_true, decide_eq_true_eq]
    exact Char.le_total a.lo b.lo
  simpa only [decide_eq_true_eq] using List.pairwise_mergeSort trans total ranges

theorem covers_congr (same : ∀ range, range ∈ others ↔ range ∈ ranges) :
    Covers others c ↔ Covers ranges c := by
  simp only [Covers, same]

theorem canonical_complement (ranges : List CharRange) : Canonical (complement ranges) :=
  canonical_gapsFrom _ _

theorem covers_complement (ranges : List CharRange) (c : Char) :
    Covers (complement ranges) c ↔ ¬ Covers ranges c := by
  rw [complement, covers_gapsFrom (pairwise_lo_complement ranges),
    covers_congr fun range => List.mem_mergeSort]
  exact and_iff_right (Nat.zero_le _)

theorem covers_complement_complement (ranges : List CharRange) (c : Char) :
    Covers (complement (complement ranges)) c ↔ Covers ranges c := by
  rw [covers_complement, covers_complement, not_not]

/-! ### The sweep -/

/-- The gap between a character and a range behind it, if there is one. -/
def gapBefore (lo : Char) (range : CharRange) : Except Fault (Option CharRange) :=
  if lo < range.lo then
    match pred? range.lo with
    | some hi => (ofBounds lo hi).map some
    | none => .ok none
  else .ok none

/-- Goes through ranges that are sorted. `next` is the first character that may lie in a gap; there
is none once a range has reached the last character. -/
def sweepGaps (next : Option Char) (ranges : List CharRange) : Except Fault (List CharRange) :=
  match next, ranges with
  | none, _ => .ok []
  | some lo, [] => (ofBounds lo all.hi).map fun gap => [gap]
  | some lo, range :: rest => do
      let gap ← gapBefore lo range
      let gaps ← sweepGaps (if lo ≤ range.hi then range.hi.succ? else some lo) rest
      return gap.toList ++ gaps

/-- The complement, found by the sweep. -/
def sweepComplement (ranges : List CharRange) : Except Fault (List CharRange) :=
  sweepGaps (some '\x00') (ranges.mergeSort fun a b => decide (¬ b < a))

/-- The ordinal of the first character that may lie in a gap. -/
def place : Option Char → Nat
  | some c => c.ordinal.val
  | none => Char.numCodePoints

theorem place_succ? (c : Char) : place c.succ? = c.ordinal.val + 1 := by
  have limit := c.ordinal.isLt
  rw [Char.succ?_eq, Fin.addNat?]
  split
  · simp only [Option.map_some, place, Char.ordinal_ofOrdinal]
  · simp only [Option.map_none, place]
    omega

/-- Bounds in order are never refused. -/
theorem exists_gap {lo hi : Char} (ordered : lo ≤ hi) :
    ∃ gap, ofBounds lo hi = .ok gap ∧
      ofOrdinals? lo.ordinal.val (hi.ordinal.val + 1) = some gap := by
  have ordered' := ordered
  rw [Char.le_iff_ordinal_le, Fin.le_def] at ordered'
  obtain ⟨gap, found⟩ := ofOrdinals?_isSome (Nat.lt_succ_of_le ordered') hi.ordinal.isLt
  obtain ⟨begins, ends⟩ := bounds_ofOrdinals? found
  have same : (⟨lo, hi, ordered⟩ : CharRange) = gap :=
    eq_of_ordinals begins.symm (Nat.succ_inj.1 ends).symm
  refine ⟨gap, ?_, found⟩
  rw [ofBounds, ofBounds?, dif_pos ordered, same]

theorem ofOrdinals?_eq_none {first limit : Nat} (ge : limit ≤ first) :
    ofOrdinals? first limit = none :=
  dif_neg fun both => Nat.not_lt.2 ge both.1

theorem gapBefore_eq (lo : Char) (range : CharRange) :
    gapBefore lo range = .ok (ofOrdinals? lo.ordinal.val range.lo.ordinal.val) := by
  unfold gapBefore
  by_cases before : lo < range.lo
  · rw [if_pos before]
    rw [Char.lt_iff_ordinal_lt, Fin.lt_def] at before
    cases previous : pred? range.lo with
    | none =>
      unfold pred? at previous
      split at previous
      · omega
      · cases previous
    | some hi =>
      have next := ordinal_of_pred? range.lo hi previous
      have ordered : lo ≤ hi := by
        rw [Char.le_iff_ordinal_le, Fin.le_def]
        omega
      obtain ⟨gap, made, found⟩ := exists_gap ordered
      rw [next] at found
      rw [found]
      show (ofBounds lo hi).map some = _
      rw [made]
      rfl
  · rw [if_neg before]
    rw [Char.lt_iff_ordinal_lt, Fin.lt_def] at before
    rw [ofOrdinals?_eq_none (Nat.not_lt.1 before)]

theorem gapsFrom_of_end (ranges : List CharRange) : gapsFrom Char.numCodePoints ranges = [] := by
  induction ranges with
  | nil => rw [gapsFrom, ofOrdinals?_eq_none (Nat.le_refl _), Option.toList_none]
  | cons range rest ih =>
    have last : range.hi.ordinal.val + 1 ≤ Char.numCodePoints := range.hi.ordinal.isLt
    rw [gapsFrom, ofOrdinals?_eq_none (Nat.le_of_lt range.lo.ordinal.isLt), Nat.max_eq_left last,
      ih]
    rfl

/-- Each step of the sweep finds the gap before one range. -/
theorem sweepGaps_eq (ranges : List CharRange) (next : Option Char) :
    sweepGaps next ranges = .ok (gapsFrom (place next) ranges) := by
  induction ranges generalizing next with
  | nil =>
    cases next with
    | none => rw [sweepGaps, place, gapsFrom_of_end]
    | some lo =>
      obtain ⟨gap, made, found⟩ := exists_gap (mem_all lo).2
      have last : all.hi.ordinal.val + 1 = Char.numCodePoints := by decide
      rw [last] at found
      rw [sweepGaps, made, gapsFrom, place, found]
      rfl
  | cons range rest ih =>
    cases next with
    | none => rw [sweepGaps, place, gapsFrom_of_end]
    | some lo =>
      have onwards : place (if lo ≤ range.hi then range.hi.succ? else some lo) =
          max lo.ordinal.val (range.hi.ordinal.val + 1) := by
        split
        · rename_i reaches
          rw [Char.le_iff_ordinal_le, Fin.le_def] at reaches
          rw [place_succ?]
          omega
        · rename_i passed
          rw [Char.le_iff_ordinal_le, Fin.le_def] at passed
          rw [place]
          omega
      rw [sweepGaps, gapBefore_eq, ih, onwards, gapsFrom, place]
      rfl

theorem pairwise_lo_mergeSort (ranges : List CharRange) :
    (ranges.mergeSort fun a b => decide (¬ b < a)).Pairwise fun a b => a.lo ≤ b.lo := by
  have le_iff : ∀ a b : CharRange, ¬ b < a ↔ a.lo.ordinal.val < b.lo.ordinal.val ∨
      a.lo.ordinal.val = b.lo.ordinal.val ∧ a.hi.ordinal.val ≤ b.hi.ordinal.val := by
    intro a b
    rw [lt_def, ← Char.ordinal_inj, Fin.ext_iff]
    simp only [Char.lt_iff_ordinal_lt, Fin.lt_def]
    omega
  have trans : ∀ a b c : CharRange, decide (¬ b < a) → decide (¬ c < b) → decide (¬ c < a) := by
    intro a b c first second
    simp only [decide_eq_true_eq, le_iff] at *
    omega
  have total : ∀ a b : CharRange, decide (¬ b < a) || decide (¬ a < b) := by
    intro a b
    simp only [Bool.or_eq_true, decide_eq_true_eq, le_iff]
    omega
  refine (List.pairwise_mergeSort trans total ranges).imp fun {a b} le => ?_
  rw [decide_eq_true_eq, le_iff] at le
  rw [Char.le_iff_ordinal_le, Fin.le_def]
  omega

/-- The sweep finds the complement. -/
theorem sweepComplement_eq (ranges : List CharRange) :
    sweepComplement ranges = .ok (complement ranges) := by
  rw [sweepComplement, sweepGaps_eq]
  congr 1
  -- Whichever way the ranges were sorted, the gaps are canonical and cover the same.
  apply (canonical_gapsFrom _ _).unique (canonical_complement ranges)
  intro c
  rw [covers_complement, covers_gapsFrom (pairwise_lo_mergeSort ranges),
    covers_congr fun range => List.mem_mergeSort]
  exact and_iff_right (Nat.zero_le _)

/-- The sweep never fails. The complement is in increasing order with room between its ranges, and
covers the characters that the ranges do not cover. Its own complement is the only one of that form
that covers what the ranges cover, and a third complement is the first one again. -/
theorem complement_canonical (ranges : List CharRange) :
    sweepComplement ranges = .ok (complement ranges) ∧ Canonical (complement ranges) ∧
      (∀ c, Covers (complement ranges) c ↔ ¬ Covers ranges c) ∧
      (∀ others, others = complement (complement ranges) ↔
        Canonical others ∧ ∀ c, Covers others c ↔ Covers ranges c) ∧
      complement (complement (complement ranges)) = complement ranges := by
  refine ⟨sweepComplement_eq ranges, canonical_complement ranges, covers_complement ranges,
    ?_, ?_⟩
  · intro others
    constructor
    · rintro rfl
      exact ⟨canonical_complement _, covers_complement_complement ranges⟩
    · rintro ⟨canonical, same⟩
      apply canonical.unique (canonical_complement _)
      intro c
      rw [same, covers_complement_complement]
  · apply (canonical_complement _).unique (canonical_complement ranges)
    intro c
    rw [covers_complement, covers_complement_complement, covers_complement]

/-- Ranges that overlap and reach both ends and the surrogates leave one gap on either side of the
characters between them. -/
example : sweepComplement [⟨'c', 'd', by decide⟩, ⟨'a', 'c', by decide⟩,
    ⟨'\x00', '\x01', by decide⟩, ⟨Char.ofNat 0xe000, Char.ofNat 0x10ffff, by decide⟩] =
      .ok [⟨'\x02', '`', by decide⟩, ⟨'e', Char.ofNat 0xd7ff, by decide⟩] := by
  cbv

end TaggedRegex.CharRange
