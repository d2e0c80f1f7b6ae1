import Mathlib
import TaggedRegex.Proofs.CharRange.Alphabet
import TaggedRegex.Proofs.Guarded.Breach

set_option autoImplicit false

/-!
The alphabet by a sweep over the code points: at each of them some ranges begin and some have just
ended, and where the depth is positive there is a part. The sweep never fails, and the parts are
those that lie between the cuts.
-/

namespace TaggedRegex.Alphabet

/-! ### The sweep -/

/-- Adds to the change of depth at a code point. The points are strictly increasing. -/
def addDelta (point : Nat) (delta : Int) : List (Nat × Int) → List (Nat × Int)
  | [] => [(point, delta)]
  | (first, old) :: rest =>
      if point < first then (point, delta) :: (first, old) :: rest
      else if point = first then (first, old + delta) :: rest
      else (first, old) :: addDelta point delta rest

/-- A range begins at its lower bound and has ended after its upper one. -/
def addRange (deltas : List (Nat × Int)) (range : CharRange) : List (Nat × Int) :=
  addDelta (range.hi.toNat + 1) (-1) (addDelta range.lo.toNat 1 deltas)

/-- The changes of depth at all code points where some range begins or has just ended. -/
def deltas (ranges : List CharRange) : List (Nat × Int) := ranges.foldl addRange []

/-- Code points that are reserved and stand for no character. -/
def isSurrogate (point : Nat) : Bool := 0xd800 ≤ point && point ≤ 0xdfff

def characterAt (point : Nat) : Except Breach Char :=
  if valid : point.isValidChar then .ok (Char.ofNatAux point valid)
  else .error (.notCharacter point)

/-- The first character that is not before a code point. -/
def lowEnd (start : Nat) : Except Breach Char :=
  if isSurrogate start then .ok (Char.ofNat 0xe000) else characterAt start

/-- The last character before a code point. -/
def highEnd (limit : Nat) : Except Breach Char :=
  if isSurrogate (limit - 1) then .ok (Char.ofNat 0xd7ff) else characterAt (limit - 1)

/-- The characters from one code point up to another, if there are any. -/
def partBetween (start limit : Nat) : Except Breach (Option CharRange) := do
  let lo ← lowEnd start
  let hi ← highEnd limit
  if lo ≤ hi then
    let part ← guarded (CharRange.ofBounds lo hi)
    return some part
  else return none

/-- Goes through the changes of depth in order. The depth is never negative, and zero after the
last change. -/
def sweep (depth : Int) : List (Nat × Int) → Except Breach (List CharRange)
  | [] => .ok []
  | [(_, delta)] =>
      if depth + delta < 0 then .error .negativeDepth
      else if depth + delta = 0 then .ok []
      else .error .openRange
  | (start, delta) :: (limit, next) :: rest =>
      if depth + delta < 0 then .error .negativeDepth
      else if depth + delta = 0 then sweep (depth + delta) ((limit, next) :: rest)
      else do
        let part ← partBetween start limit
        let parts ← sweep (depth + delta) ((limit, next) :: rest)
        return part.toList ++ parts

/-- The alphabet of some ranges, found by the sweep. -/
def partition (ranges : List CharRange) : Except Breach Alphabet :=
  (sweep 0 (deltas ranges)).map fun parts => ⟨parts.toArray⟩

/-! ### Depths -/

theorem points_addDelta (point : Nat) (delta : Int) (deltas : List (Nat × Int)) :
    (addDelta point delta deltas).map Prod.fst = insertCut point (deltas.map Prod.fst) := by
  induction deltas with
  | nil => rfl
  | cons first rest ih =>
    rw [addDelta, List.map_cons, insertCut]
    split
    · rfl
    · split
      · rfl
      · rw [List.map_cons, ih]

theorem sorted_points (ranges : List CharRange) :
    ((deltas ranges).map Prod.fst).Pairwise (· < ·) := by
  suffices grown : ∀ start : List (Nat × Int), (start.map Prod.fst).Pairwise (· < ·) →
      ((ranges.foldl addRange start).map Prod.fst).Pairwise (· < ·) from
    grown [] List.Pairwise.nil
  induction ranges with
  | nil => exact fun start sorted => sorted
  | cons range ranges ih =>
    intro start sorted
    apply ih
    rw [addRange, points_addDelta, points_addDelta]
    exact sorted_insertCut _ _ (sorted_insertCut _ _ sorted)

theorem mem_points (ranges : List CharRange) (point : Nat) :
    point ∈ (deltas ranges).map Prod.fst ↔ ∃ range ∈ ranges,
      point = range.lo.toNat ∨ point = range.hi.toNat + 1 := by
  suffices grown : ∀ start : List (Nat × Int),
      point ∈ (ranges.foldl addRange start).map Prod.fst ↔ point ∈ start.map Prod.fst ∨
        ∃ range ∈ ranges, point = range.lo.toNat ∨ point = range.hi.toNat + 1 by
    simpa [deltas] using grown []
  induction ranges with
  | nil => simp
  | cons range ranges ih =>
    intro start
    rw [List.foldl_cons, ih, addRange, points_addDelta, points_addDelta, mem_insertCut,
      mem_insertCut]
    simp only [List.mem_cons, exists_eq_or_imp]
    grind

/-- Whether a code point lies between the bounds of a range. -/
def covers (point : Nat) (range : CharRange) : Bool :=
  range.lo.toNat ≤ point && point ≤ range.hi.toNat

/-- The sum of all changes up to a code point. -/
def depthAt (point : Nat) (deltas : List (Nat × Int)) : Int :=
  ((deltas.filter fun change => change.1 ≤ point).map Prod.snd).sum

theorem depthAt_cons (point : Nat) (change : Nat × Int) (deltas : List (Nat × Int)) :
    depthAt point (change :: deltas) =
      (if change.1 ≤ point then change.2 else 0) + depthAt point deltas := by
  unfold depthAt
  by_cases early : change.1 ≤ point
  · rw [List.filter_cons_of_pos (by simpa using early), List.map_cons, List.sum_cons, if_pos early]
  · rw [List.filter_cons_of_neg (by simpa using early), if_neg early, Int.zero_add]

theorem depthAt_addDelta (point place : Nat) (delta : Int) (deltas : List (Nat × Int)) :
    depthAt point (addDelta place delta deltas) =
      depthAt point deltas + if place ≤ point then delta else 0 := by
  induction deltas with
  | nil =>
    rw [addDelta, depthAt_cons]
    simp [depthAt]
  | cons first rest ih =>
    rw [addDelta]
    split
    · rw [depthAt_cons, Int.add_comm]
    · split
      · rename_i same
        rw [depthAt_cons, depthAt_cons, same]
        dsimp only
        split <;> omega
      · rw [depthAt_cons, depthAt_cons, ih, Int.add_assoc]

/-- The depth at a code point is the number of ranges around it. -/
theorem depthAt_deltas (point : Nat) (ranges : List CharRange) :
    depthAt point (deltas ranges) = ranges.countP (covers point) := by
  suffices grown : ∀ start : List (Nat × Int), depthAt point (ranges.foldl addRange start) =
      depthAt point start + ranges.countP (covers point) by
    simpa [deltas, depthAt] using grown []
  induction ranges with
  | nil => simp
  | cons range ranges ih =>
    intro start
    have ordered : range.lo.toNat ≤ range.hi.toNat := range.lo_le_hi
    rw [List.foldl_cons, ih, addRange, depthAt_addDelta, depthAt_addDelta, List.countP_cons]
    simp only [covers, Bool.and_eq_true, decide_eq_true_eq]
    split <;> split <;> split <;> omega

/-- At a change the depth is the sum of the changes so far. -/
theorem depth_eq_countP {ranges : List CharRange} {before after : List (Nat × Int)} {start : Nat}
    {delta : Int} (split : deltas ranges = before ++ (start, delta) :: after) :
    (before.map Prod.snd).sum + delta = ranges.countP (covers start) := by
  have sorted := sorted_points ranges
  rw [split, List.map_append, List.map_cons, List.pairwise_append, List.pairwise_cons] at sorted
  obtain ⟨-, ⟨above, -⟩, below⟩ := sorted
  have early : before.filter (fun change => change.1 ≤ start) = before := by
    apply List.filter_eq_self.2
    intro change member
    have lt := below change.1 (List.mem_map_of_mem member) start (List.mem_cons_self ..)
    exact decide_eq_true (Nat.le_of_lt lt)
  have late : after.filter (fun change => change.1 ≤ start) = [] := by
    apply List.filter_eq_nil_iff.2
    intro change member
    have lt := above change.1 (List.mem_map_of_mem member)
    simpa using lt
  rw [← depthAt_deltas, split, depthAt, List.filter_append, early, List.filter_cons, late]
  simp

/-! ### Code points and ordinals -/

/-- The number of characters before a code point. -/
def place (point : Nat) : Nat := min point 0xd800 + (point - 0xe000)

theorem ordinal_eq_place (c : Char) : c.ordinal.val = place c.toNat := by
  have valid : c.toNat < 0xd800 ∨ 0xdfff < c.toNat ∧ c.toNat < 0x110000 := c.valid
  have before : c.val < 0xd800 ↔ c.toNat < 0xd800 := Iff.rfl
  unfold Char.ordinal place
  split
  · rename_i low
    rw [before] at low
    show c.toNat = _
    omega
  · rename_i high
    rw [before] at high
    show c.toNat - 0x800 = _
    omega

theorem place_succ (c : Char) : place (c.toNat + 1) = c.ordinal.val + 1 := by
  have valid : c.toNat < 0xd800 ∨ 0xdfff < c.toNat ∧ c.toNat < 0x110000 := c.valid
  rw [ordinal_eq_place]
  unfold place
  omega

theorem characterAt_spec {point : Nat} (valid : point.isValidChar) :
    ∃ c, characterAt point = .ok c ∧ c.ordinal.val = place point := by
  refine ⟨Char.ofNatAux point valid, dif_pos valid, ?_⟩
  rw [ordinal_eq_place]
  rfl

theorem lowEnd_spec {start : Nat} (lt : start < 0x110000) :
    ∃ c, lowEnd start = .ok c ∧ c.ordinal.val = place start := by
  unfold lowEnd isSurrogate
  simp only [Bool.and_eq_true, decide_eq_true_eq]
  split
  · refine ⟨_, rfl, ?_⟩
    rw [ordinal_eq_place]
    show place 0xe000 = place start
    unfold place
    omega
  · apply characterAt_spec
    unfold Nat.isValidChar
    omega

theorem highEnd_spec {limit : Nat} (positive : 0 < limit) (le : limit ≤ 0x110000) :
    ∃ c, highEnd limit = .ok c ∧ c.ordinal.val + 1 = place limit := by
  unfold highEnd isSurrogate
  simp only [Bool.and_eq_true, decide_eq_true_eq]
  split
  · refine ⟨_, rfl, ?_⟩
    rw [ordinal_eq_place]
    show place 0xd7ff + 1 = place limit
    unfold place
    omega
  · have valid : (limit - 1).isValidChar := by
      unfold Nat.isValidChar
      omega
    obtain ⟨c, found, same⟩ := characterAt_spec valid
    refine ⟨c, found, ?_⟩
    rw [same]
    unfold Nat.isValidChar at valid
    unfold place
    omega

/-- Both ends of a part are characters. -/
theorem partBetween_eq {start limit : Nat} (lt : start < limit) (le : limit ≤ 0x110000) :
    partBetween start limit = .ok (CharRange.ofOrdinals? (place start) (place limit)) := by
  obtain ⟨lo, lowFound, loPlace⟩ := lowEnd_spec (Nat.lt_of_lt_of_le lt le)
  obtain ⟨hi, highFound, hiPlace⟩ := highEnd_spec (Nat.lt_of_le_of_lt (Nat.zero_le _) lt) le
  have inside : place limit ≤ Char.numCodePoints := by
    rw [← hiPlace]
    exact hi.ordinal.isLt
  rw [partBetween, lowFound, highFound]
  show (if lo ≤ hi then _ else _) = _
  by_cases ordered : lo ≤ hi
  · have before : place start < place limit := by
      rw [Char.le_iff_ordinal_le, Fin.le_def] at ordered
      omega
    obtain ⟨part, found⟩ := CharRange.ofOrdinals?_isSome before inside
    obtain ⟨partLo, partHi⟩ := CharRange.bounds_ofOrdinals? found
    have same : part = ⟨lo, hi, ordered⟩ := by
      obtain ⟨first, last, within⟩ := part
      have sameLo : first = lo := Char.ordinal_inj.1 (Fin.ext (partLo.trans loPlace.symm))
      have sameHi : last = hi := Char.ordinal_inj.1 (Fin.ext (by dsimp only at partHi; omega))
      subst sameLo
      subst sameHi
      rfl
    rw [if_pos ordered, found, same, CharRange.ofBounds, CharRange.ofBounds?, dif_pos ordered]
    rfl
  · have behind : ¬ place start < place limit := by
      rw [Char.le_iff_ordinal_le, Fin.le_def] at ordered
      omega
    rw [if_neg ordered, CharRange.ofOrdinals?, dif_neg fun both => behind both.1]
    rfl

/-! ### The parts -/

/-- Between two neighbouring changes a part lies inside the ranges around its beginning. -/
theorem exists_mem_iff_countP {ranges : List CharRange} {start limit : Nat} {part : CharRange}
    (between : ∀ point ∈ (deltas ranges).map Prod.fst, point ≤ start ∨ limit ≤ point)
    (found : CharRange.ofOrdinals? (place start) (place limit) = some part) :
    (∃ range ∈ ranges, part.lo ∈ range) ↔ ranges.countP (covers start) ≠ 0 := by
  obtain ⟨loPlace, hiPlace⟩ := CharRange.bounds_ofOrdinals? found
  have ordered := part.lo_le_hi
  rw [Char.le_iff_ordinal_le, Fin.le_def] at ordered
  have valid : part.lo.toNat < 0xd800 ∨ 0xdfff < part.lo.toNat ∧ part.lo.toNat < 0x110000 :=
    part.lo.valid
  have inside : start ≤ part.lo.toNat ∧ part.lo.toNat < limit := by
    rw [ordinal_eq_place] at loPlace ordered
    unfold place at *
    omega
  have same : ∀ range ∈ ranges, part.lo ∈ range ↔ covers start range = true := by
    intro range member
    have lo := between _ ((mem_points ranges _).2 ⟨range, member, Or.inl rfl⟩)
    have hi := between _ ((mem_points ranges _).2 ⟨range, member, Or.inr rfl⟩)
    have bounds : part.lo ∈ range ↔
        range.lo.toNat ≤ part.lo.toNat ∧ part.lo.toNat ≤ range.hi.toNat := Iff.rfl
    simp only [bounds, covers, Bool.and_eq_true, decide_eq_true_eq]
    omega
  rw [ne_eq, List.countP_eq_zero]
  constructor
  · rintro ⟨range, member, within⟩ none
    exact none range member ((same range member).1 within)
  · intro some
    by_contra none
    exact some fun range member covered =>
      none ⟨range, member, (same range member).2 covered⟩

theorem partsBetween_map_cons_cons (ranges : List CharRange) (first second : Nat × Int)
    (rest : List (Nat × Int)) :
    partsBetween ranges ((first :: second :: rest).map fun change => place change.1) =
      ((CharRange.ofOrdinals? (place first.1) (place second.1)).filter fun part =>
        ranges.any fun range => decide (part.lo ∈ range)).toList ++
        partsBetween ranges ((second :: rest).map fun change => place change.1) := by
  rw [List.map_cons, List.map_cons, partsBetween]

/-- Between two neighbouring changes there is a part if the depth is positive there. -/
theorem filter_part_eq {ranges : List CharRange} {start limit : Nat}
    (between : ∀ point ∈ (deltas ranges).map Prod.fst, point ≤ start ∨ limit ≤ point) :
    ((CharRange.ofOrdinals? (place start) (place limit)).filter fun part =>
        ranges.any fun range => decide (part.lo ∈ range)) =
      if ranges.countP (covers start) = 0 then none
      else CharRange.ofOrdinals? (place start) (place limit) := by
  cases found : CharRange.ofOrdinals? (place start) (place limit) with
  | none => simp
  | some part =>
    have inside := exists_mem_iff_countP between found
    rw [Option.filter_some]
    by_cases zero : ranges.countP (covers start) = 0
    · have outside : ¬ ∃ range ∈ ranges, part.lo ∈ range := fun some => inside.1 some zero
      rw [if_pos zero, if_neg (by simpa using outside)]
    · have within : ∃ range ∈ ranges, part.lo ∈ range := inside.2 zero
      rw [if_neg zero, if_pos (by simpa using within)]

/-- After the last change no range is open. -/
theorem countP_last {ranges : List CharRange} {before : List (Nat × Int)} {start : Nat}
    {delta : Int} (split : deltas ranges = before ++ [(start, delta)]) :
    ranges.countP (covers start) = 0 := by
  have sorted := sorted_points ranges
  rw [split, List.map_append, List.pairwise_append] at sorted
  rw [List.countP_eq_zero]
  intro range member covered
  have last := (mem_points ranges _).2 ⟨range, member, Or.inr rfl⟩
  simp only [covers, Bool.and_eq_true, decide_eq_true_eq] at covered
  rw [split, List.map_append, List.mem_append, List.map_singleton, List.mem_singleton] at last
  rcases last with early | same
  · have lt := sorted.2.2 _ early start (List.mem_singleton_self _)
    omega
  · omega

/-- There is no change between two neighbouring ones. -/
theorem neighbours_of_split {ranges : List CharRange} {before after : List (Nat × Int)}
    {start limit : Nat} {delta next : Int}
    (split : deltas ranges = before ++ (start, delta) :: (limit, next) :: after) :
    start < limit ∧ ∀ point ∈ (deltas ranges).map Prod.fst, point ≤ start ∨ limit ≤ point := by
  have sorted := sorted_points ranges
  rw [split, List.map_append, List.map_cons, List.map_cons, List.pairwise_append,
    List.pairwise_cons, List.pairwise_cons] at sorted
  obtain ⟨-, ⟨above, beyond, -⟩, below⟩ := sorted
  refine ⟨above limit (List.mem_cons_self ..), ?_⟩
  intro point member
  rw [split, List.map_append, List.mem_append] at member
  rcases member with early | late
  · exact Or.inl (Nat.le_of_lt (below point early start (List.mem_cons_self ..)))
  · rw [List.map_cons, List.map_cons, List.mem_cons, List.mem_cons] at late
    rcases late with rfl | rfl | later
    · exact Or.inl (Nat.le_refl _)
    · exact Or.inr (Nat.le_refl _)
    · exact Or.inr (Nat.le_of_lt (beyond point later))

theorem point_le {ranges : List CharRange} {point : Nat}
    (member : point ∈ (deltas ranges).map Prod.fst) : point ≤ 0x110000 := by
  obtain ⟨range, -, same⟩ := (mem_points ranges point).1 member
  have loValid : range.lo.toNat < 0xd800 ∨
    0xdfff < range.lo.toNat ∧ range.lo.toNat < 0x110000 := range.lo.valid
  have hiValid : range.hi.toNat < 0xd800 ∨
    0xdfff < range.hi.toNat ∧ range.hi.toNat < 0x110000 := range.hi.valid
  omega

/-- No depth is negative, no range stays open, and all bounds are characters. -/
theorem sweep_eq (ranges : List CharRange) (before after : List (Nat × Int))
    (split : deltas ranges = before ++ after) :
    sweep (before.map Prod.snd).sum after =
      .ok (partsBetween ranges (after.map fun change => place change.1)) := by
  induction after generalizing before with
  | nil => rfl
  | cons first rest ih =>
    obtain ⟨start, delta⟩ := first
    -- The depth that the sweep has reached counts the ranges around the code point.
    have depth := depth_eq_countP split
    have notNegative : ¬ ((ranges.countP (covers start) : Nat) : Int) < 0 := by omega
    have onward := ih (before ++ [(start, delta)]) (by rw [split, List.append_assoc]; rfl)
    rw [List.map_append, List.sum_append, List.map_singleton, List.sum_singleton, depth]
      at onward
    cases rest with
    | nil =>
      rw [sweep, depth, if_neg notNegative, countP_last split]
      rfl
    | cons second rest =>
      obtain ⟨limit, next⟩ := second
      obtain ⟨lt, between⟩ := neighbours_of_split split
      have le : limit ≤ 0x110000 := point_le (by rw [split]; simp)
      rw [sweep, depth, if_neg notNegative, onward, partBetween_eq lt le,
        partsBetween_map_cons_cons ranges (start, delta) (limit, next) rest,
        filter_part_eq between]
      by_cases zero : ranges.countP (covers start) = 0
      · rw [if_pos zero, zero]
        rfl
      · rw [if_neg zero, if_neg (by omega)]
        rfl

/-! ### Cuts that occur twice -/

/-- Lists in order with the same elements begin with the same one. -/
theorem head_eq {first least : Nat} {rest others : List Nat}
    (sorted : (first :: rest).Pairwise (· ≤ ·)) (strict : (least :: others).Pairwise (· < ·))
    (same : ∀ cut, cut ∈ first :: rest ↔ cut ∈ least :: others) : first = least := by
  have up := (same first).1 (List.mem_cons_self ..)
  have down := (same least).2 (List.mem_cons_self ..)
  have below := (List.pairwise_cons.1 strict).1 first
  have above := (List.pairwise_cons.1 sorted).1 least
  grind

theorem partsBetween_cons_self (ranges : List CharRange) (cut : Nat) (rest : List Nat) :
    partsBetween ranges (cut :: cut :: rest) = partsBetween ranges (cut :: rest) := by
  rw [partsBetween, CharRange.ofOrdinals?, dif_neg fun both => Nat.lt_irrefl _ both.1]
  rfl

/-- Cuts that occur twice make no difference. -/
theorem partsBetween_congr (ranges : List CharRange) {cuts distinct : List Nat}
    (sorted : cuts.Pairwise (· ≤ ·)) (strict : distinct.Pairwise (· < ·))
    (same : ∀ cut, cut ∈ cuts ↔ cut ∈ distinct) :
    partsBetween ranges cuts = partsBetween ranges distinct := by
  induction cuts generalizing distinct with
  | nil =>
    obtain rfl : distinct = [] := List.eq_nil_iff_forall_not_mem.2 fun cut member =>
      List.not_mem_nil ((same cut).2 member)
    rfl
  | cons first rest ih =>
    obtain ⟨least, restSorted⟩ := List.pairwise_cons.1 sorted
    cases distinct with
    | nil => exact absurd ((same first).1 (List.mem_cons_self ..)) List.not_mem_nil
    | cons first' others =>
      obtain rfl : first = first' := head_eq sorted strict same
      obtain ⟨below, othersStrict⟩ := List.pairwise_cons.1 strict
      cases rest with
      | nil =>
        obtain rfl : others = [] := List.eq_nil_iff_forall_not_mem.2 fun cut member => by
          have here := (same cut).2 (List.mem_cons_of_mem _ member)
          have above := below cut member
          simp at here
          omega
        rfl
      | cons second rest =>
        by_cases again : second = first
        · subst again
          rw [partsBetween_cons_self]
          exact ih restSorted strict fun cut => by rw [← same cut]; simp
        · -- The first cut is now gone from both lists.
          have gone : first ∉ second :: rest := by
            have above := (List.pairwise_cons.1 restSorted).1 first
            have here := least second
            grind
          have restSame : ∀ cut, cut ∈ second :: rest ↔ cut ∈ others := by
            intro cut
            have both := same cut
            have above := below cut
            grind
          cases others with
          | nil => exact absurd ((restSame second).1 (List.mem_cons_self ..)) List.not_mem_nil
          | cons second' others =>
            obtain rfl : second = second' := head_eq restSorted othersStrict restSame
            rw [partsBetween, partsBetween, ih restSorted othersStrict restSame]

/-- The sweep finds the alphabet without any breach. -/
theorem partition_eq (ranges : List CharRange) : partition ranges = .ok (ofRanges ranges) := by
  have sorted : ((deltas ranges).map fun change => place change.1).Pairwise (· ≤ ·) := by
    have points := sorted_points ranges
    rw [List.pairwise_map] at points ⊢
    apply points.imp
    intro first second lt
    unfold place
    omega
  have same : ∀ cut, cut ∈ (deltas ranges).map (fun change => place change.1) ↔
      cut ∈ cuts ranges := by
    intro cut
    rw [mem_cuts, show (fun change : Nat × Int => place change.1) = place ∘ Prod.fst from rfl,
      ← List.map_map, List.mem_map]
    simp only [mem_points]
    constructor
    · rintro ⟨point, ⟨range, member, rfl | rfl⟩, rfl⟩
      · exact ⟨range, member, Or.inl (ordinal_eq_place _).symm⟩
      · exact ⟨range, member, Or.inr (place_succ _)⟩
    · rintro ⟨range, member, rfl | rfl⟩
      · exact ⟨_, ⟨range, member, Or.inl rfl⟩, (ordinal_eq_place _).symm⟩
      · exact ⟨_, ⟨range, member, Or.inr rfl⟩, place_succ _⟩
  have swept := sweep_eq ranges [] (deltas ranges) rfl
  rw [partsBetween_congr ranges sorted (sorted_cuts ranges) same] at swept
  rw [partition, ofRanges]
  exact congrArg (Except.map _) swept

end TaggedRegex.Alphabet
