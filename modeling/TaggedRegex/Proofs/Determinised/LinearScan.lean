import TaggedRegex.Proofs.Determinised.Table

set_option autoImplicit false

/-!
Tables that are filled transition by transition. Although only the two neighbours of a new
transition are looked at, and the look-up only looks at one place, both answer as if every
transition had been looked at.
-/

namespace TaggedRegex

/-- Both transitions leave one state, and some character leads over both. -/
def Transition.Shares (a b : Transition) : Prop :=
  a.source = b.source ∧ ∃ c, c ∈ a.range ∧ c ∈ b.range

theorem Transition.disjoint_iff_not_shares (a b : Transition) :
    a.disjoint b = true ↔ ¬ a.Shares b := by
  have aBounds := a.range.lo_le_hi
  have bBounds := b.range.lo_le_hi
  rw [disjoint_iff]
  constructor
  · rintro apart ⟨same, c, inA, inB⟩
    simp only [CharRange.mem_def, Char.lt_iff_ordinal_lt, Char.le_iff_ordinal_le, Fin.lt_def,
      Fin.le_def] at *
    omega
  · intro apart
    apply Decidable.byContradiction
    intro together
    simp only [not_or, ne_eq, Decidable.not_not, Char.not_lt] at together
    obtain ⟨same, bLo, aLo⟩ := together
    -- The range that begins later begins inside the other one.
    rcases Char.le_total a.range.lo b.range.lo with le | le
    · exact apart ⟨same, b.range.lo, ⟨le, bLo⟩, b.range.lo_mem⟩
    · exact apart ⟨same, a.range.lo, a.range.lo_mem, ⟨le, aLo⟩⟩

namespace Table

variable {table after : Table} {transition : Transition} {place : Nat}

/-- Adds transitions one after the other. -/
def insertAll (table : Table) : List Transition → Except Fault Table
  | [] => .ok table
  | transition :: rest =>
      match table.insert transition with
      | .error fault => .error fault
      | .ok (_, table) => table.insertAll rest

/-! ### What the neighbours tell -/

/-- The two places that are looked at when a transition is added. -/
def NeighboursApart (table : Table) (transition : Transition) (place : Nat) : Prop :=
  (if place = 0 then none else table.transitions[place - 1]?).all transition.disjoint = true ∧
    (table.transitions[place]?).all transition.disjoint = true

/-- If the neighbours are apart from a new transition, those beyond them are as well. -/
theorem Sorted.apart_of_neighbours (sorted : table.Sorted)
    (neighbours : table.NeighboursApart transition
      (partitionPoint table.transitions fun other => other.before transition)) :
    ∀ other ∈ table.transitions, transition.disjoint other = true := by
  have separates := lt_partitionPoint_iff table.transitions (fun other => other.before transition)
    (sorted.before_of_le transition)
  have place_le := partitionPoint_le table.transitions fun other => other.before transition
  generalize partitionPoint table.transitions (fun other => other.before transition) = place
    at neighbours separates place_le
  obtain ⟨left, right⟩ := neighbours
  intro other member
  obtain ⟨i, at_i⟩ := Array.mem_iff_getElem?.1 member
  obtain ⟨inside, -⟩ := Array.getElem?_eq_some_iff.1 at_i
  by_cases before : i < place
  · have at_last : table.transitions[place - 1]? = some table.transitions[place - 1] :=
      Array.getElem?_eq_getElem (by omega)
    rw [if_neg (by omega), at_last, Option.all_some] at left
    have last := Transition.precedes_of_before ((separates _ _ at_last).1 (by omega)) left
    rw [Transition.disjoint_comm]
    rcases Nat.lt_or_eq_of_le (Nat.le_sub_one_of_lt before) with earlier | rfl
    · exact ((sorted.precedes earlier at_i at_last).trans last).disjoint
    · obtain rfl := Option.some.inj (at_i.symm.trans at_last)
      exact last.disjoint
  · have at_first : table.transitions[place]? = some table.transitions[place] :=
      Array.getElem?_eq_getElem (by omega)
    rw [at_first, Option.all_some] at right
    have notBefore : ¬ table.transitions[place].before transition = true :=
      fun passes => Nat.lt_irrefl _ ((separates _ _ at_first).2 passes)
    have first := Transition.precedes_of_not_before notBefore right
    rcases Nat.lt_or_eq_of_le (Nat.le_of_not_lt before) with later | rfl
    · exact (first.trans (sorted.precedes later at_first at_i)).disjoint
    · obtain rfl := Option.some.inj (at_i.symm.trans at_first)
      exact first.disjoint

theorem insert_cases (table : Table) (transition : Transition) :
    table.insert transition = .error (.overlap transition) ∨
      table.NeighboursApart transition
        (partitionPoint table.transitions fun other => other.before transition) := by
  unfold insert
  extract_lets point left right
  by_cases apart : left.all transition.disjoint ∧ right.all transition.disjoint
  · exact Or.inr apart
  · exact Or.inl (if_neg apart)

/-- A transition is refused exactly if it shares a character with some other from its source,
wherever that stands. -/
theorem Sorted.insert_eq_error_iff (sorted : table.Sorted) (transition : Transition) :
    table.insert transition = .error (.overlap transition) ↔
      ∃ other ∈ table.transitions, transition.Shares other := by
  constructor
  · intro refused
    by_cases shared : ∃ other ∈ table.transitions, transition.Shares other
    · exact shared
    · have apart : ∀ other ∈ table.transitions, transition.disjoint other = true := by
        intro other member
        rw [Transition.disjoint_iff_not_shares]
        exact fun shares => shared ⟨other, member, shares⟩
      obtain ⟨place, after, success, -⟩ := sorted.insert apart
      rw [success] at refused
      cases refused
  · rintro ⟨other, member, shares⟩
    rcases table.insert_cases transition with refused | neighbours
    · exact refused
    · have apart := sorted.apart_of_neighbours neighbours other member
      exact absurd shares ((Transition.disjoint_iff_not_shares ..).1 apart)

/-! ### Sequences of transitions -/

theorem Sorted.of_insert (sorted : table.Sorted)
    (success : table.insert transition = .ok (place, after)) : after.Sorted := by
  rcases table.insert_cases transition with refused | neighbours
  · rw [refused] at success
    cases success
  · obtain ⟨other, later, found, laterSorted, -⟩ :=
      sorted.insert (sorted.apart_of_neighbours neighbours)
    obtain ⟨-, rfl⟩ := Prod.mk.inj (Except.ok.inj (found.symm.trans success))
    exact laterSorted

theorem eraseIdx_of_insert (success : table.insert transition = .ok (place, after)) :
    after.transitions.toList.eraseIdx place = table.transitions.toList := by
  obtain ⟨le, whole⟩ := toList_of_insert success
  have length : (table.transitions.toList.take place).length = place := by
    rw [List.length_take, Array.length_toList]
    omega
  rw [whole, List.eraseIdx_append_of_length_le (by omega), length, Nat.sub_self,
    List.eraseIdx_cons_zero, List.take_append_drop]

/-- A table stays sorted while it is filled, and holds what has been added. -/
theorem Sorted.insertAll {transitions : List Transition} (sorted : table.Sorted)
    (filled : table.insertAll transitions = .ok after) :
    after.Sorted ∧ after.transitions.toList.Perm (table.transitions.toList ++ transitions) := by
  induction transitions generalizing table with
  | nil =>
    obtain rfl := Except.ok.inj filled
    rw [List.append_nil]
    exact ⟨sorted, .refl _⟩
  | cons transition rest ih =>
    rw [Table.insertAll] at filled
    split at filled
    · cases filled
    · rename_i place next success
      obtain ⟨laterSorted, perm⟩ := ih (sorted.of_insert success) filled
      refine ⟨laterSorted, perm.trans ?_⟩
      apply ((perm_of_insert success).append_right rest).trans
      exact List.perm_middle.symm

/-- The transitions of a sorted table are in strictly increasing order, and no two of them share a
character. -/
theorem Sorted.pairwise (sorted : table.Sorted) :
    table.transitions.toList.Pairwise fun a b =>
      (a.source < b.source ∨ a.source = b.source ∧ a.range < b.range) ∧ ¬ a.Shares b := by
  apply List.Pairwise.imp _ sorted
  intro a b precedes
  exact ⟨(Transition.before_iff a b).1 precedes.before,
    (Transition.disjoint_iff_not_shares a b).1 precedes.disjoint⟩

/-- The look-up finds the only transition that fits. -/
theorem Sorted.find?_eq_some_iff (sorted : table.Sorted) (source : Nat) (c : Char) (place : Nat) :
    table.find? source c = some place ↔
      ∃ transition, table.transitions[place]? = some transition ∧ transition.source = source ∧
        c ∈ transition.range := by
  constructor
  · exact of_find?_eq_some
  · rintro ⟨transition, at_place, rfl, inside⟩
    exact sorted.find?_eq_some at_place inside

theorem Sorted.find?_eq_none_iff (sorted : table.Sorted) (source : Nat) (c : Char) :
    table.find? source c = none ↔
      ∀ transition ∈ table.transitions, transition.source = source → c ∉ transition.range := by
  rw [Option.eq_none_iff_forall_ne_some]
  constructor
  · intro missing transition member fits inside
    obtain ⟨place, at_place⟩ := Array.mem_iff_getElem?.1 member
    exact missing place ((sorted.find?_eq_some_iff ..).2 ⟨transition, at_place, fits, inside⟩)
  · intro none place found
    obtain ⟨transition, at_place, fits, inside⟩ := of_find?_eq_some found
    exact none transition (Array.mem_of_getElem? at_place) fits inside

/-- However a table has been filled, it answers like a scan of all that has been added. A transition
is refused exactly if it shares a character with one of them; otherwise it comes to stand at the
place that is returned, and the others stay as they are. The look-up finds the place of the only
transition that leads on, if there is one. -/
theorem insertAll_agrees_with_scan (added : List Transition) (table : Table)
    (filled : empty.insertAll added = .ok table) :
    table.transitions.toList.Perm added ∧
    (table.transitions.toList.Pairwise fun a b =>
      (a.source < b.source ∨ a.source = b.source ∧ a.range < b.range) ∧ ¬ a.Shares b) ∧
    (∀ transition,
      ((∃ other ∈ added, transition.Shares other) ∧
        table.insert transition = .error (.overlap transition)) ∨
      ((¬ ∃ other ∈ added, transition.Shares other) ∧
        ∃ place after, table.insert transition = .ok (place, after) ∧
          after.transitions[place]? = some transition ∧
          after.transitions.toList.eraseIdx place = table.transitions.toList)) ∧
    ∀ source c,
      (∀ place, table.find? source c = some place ↔
        ∃ transition, table.transitions[place]? = some transition ∧ transition.source = source ∧
          c ∈ transition.range) ∧
      (table.find? source c = none ↔
        ∀ transition ∈ added, transition.source = source → c ∉ transition.range) := by
  obtain ⟨sorted, perm⟩ := sorted_empty.insertAll filled
  have same : ∀ transition, transition ∈ table.transitions ↔ transition ∈ added := by
    intro transition
    rw [← Array.mem_toList_iff]
    exact perm.mem_iff
  refine ⟨perm, sorted.pairwise, ?_, ?_⟩
  · intro transition
    have refusal := sorted.insert_eq_error_iff transition
    simp only [same] at refusal
    by_cases shared : ∃ other ∈ added, transition.Shares other
    · exact Or.inl ⟨shared, refusal.2 shared⟩
    · right
      refine ⟨shared, ?_⟩
      cases outcome : table.insert transition with
      | ok result =>
        exact ⟨result.1, result.2, rfl, getElem?_of_insert outcome, eraseIdx_of_insert outcome⟩
      | error fault =>
        rcases table.insert_cases transition with refused | neighbours
        · exact absurd (refusal.1 refused) shared
        · obtain ⟨place, after, success, -⟩ := sorted.insert (sorted.apart_of_neighbours neighbours)
          rw [success] at outcome
          cases outcome
  · intro source c
    refine ⟨sorted.find?_eq_some_iff source c, ?_⟩
    rw [sorted.find?_eq_none_iff]
    simp only [same]

/-- Ranges that come out of order, touch each other and occur under two sources. -/
theorem insertAll_agrees_with_scan_touching :
    let added : List Transition :=
      [⟨1, ⟨'m', 'z', by decide⟩, 2, []⟩, ⟨0, ⟨'a', 'c', by decide⟩, 1, []⟩,
        ⟨1, ⟨'a', 'l', by decide⟩, 0, []⟩, ⟨0, .single 'x', 3, []⟩]
    let crossing : Transition := ⟨0, ⟨'b', 'y', by decide⟩, 4, []⟩
    ∃ table, empty.insertAll added = .ok table ∧
      table.insert crossing = .error (.overlap crossing) ∧ table.find? 1 'm' = some 3 ∧
      table.find? 0 'm' = none := by
  intro added crossing
  have filled : empty.insertAll added = .ok
      ⟨#[⟨0, ⟨'a', 'c', by decide⟩, 1, []⟩, ⟨0, .single 'x', 3, []⟩,
        ⟨1, ⟨'a', 'l', by decide⟩, 0, []⟩, ⟨1, ⟨'m', 'z', by decide⟩, 2, []⟩]⟩ := by cbv
  obtain ⟨-, -, inserts, finds⟩ := insertAll_agrees_with_scan added _ filled
  refine ⟨_, filled, ?_, ?_, ?_⟩
  · rcases inserts crossing with ⟨-, refused⟩ | ⟨apart, -⟩
    · exact refused
    · exact absurd ⟨⟨0, .single 'x', 3, []⟩, by decide, rfl, 'x', by decide, by decide⟩ apart
  · exact ((finds 1 'm').1 3).2 ⟨_, rfl, rfl, by decide⟩
  · exact (finds 0 'm').2.2 (by decide)

end Table

end TaggedRegex
