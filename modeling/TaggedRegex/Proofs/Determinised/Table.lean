import TaggedRegex.Determinised.Table
import TaggedRegex.Proofs.CharRange.Alphabet

set_option autoImplicit false

/-!
Sorted tables. The look-up finds the transition whose range holds the character, and a transition
that shares no character with those from its source is added without disturbing them.
-/

namespace TaggedRegex

namespace Transition

/-- `a` stands before `b` in a sorted table, and they share no character. -/
def Precedes (a b : Transition) : Prop :=
  a.source < b.source ∨ a.source = b.source ∧ a.range.hi < b.range.lo

theorem lt_of_hi_lt_lo {r s : CharRange} (lt : r.hi < s.lo) : r < s := by
  rw [CharRange.lt_def]
  left
  have le := r.lo_le_hi
  rw [Char.le_iff_ordinal_le, Fin.le_def] at le
  rw [Char.lt_iff_ordinal_lt, Fin.lt_def] at lt ⊢
  omega

theorem before_iff (a b : Transition) :
    a.before b = true ↔ a.source < b.source ∨ a.source = b.source ∧ a.range < b.range := by
  simp [before]

theorem disjoint_iff (a b : Transition) :
    a.disjoint b = true ↔
      a.source ≠ b.source ∨ a.range.hi < b.range.lo ∨ b.range.hi < a.range.lo := by
  simp [disjoint, or_assoc]

theorem Precedes.before {a b : Transition} (precedes : a.Precedes b) : a.before b = true := by
  rw [before_iff]
  rcases precedes with lt | ⟨same, lt⟩
  · exact Or.inl lt
  · exact Or.inr ⟨same, lt_of_hi_lt_lo lt⟩

/-- Of two disjoint transitions the smaller one ends before the larger one begins. -/
theorem precedes_of_before {a b : Transition} (before : a.before b = true)
    (disjoint : b.disjoint a = true) : a.Precedes b := by
  rw [before_iff] at before
  rw [disjoint_iff] at disjoint
  rcases before with lt | ⟨same, lt⟩
  · exact Or.inl lt
  · right
    refine ⟨same, ?_⟩
    have aBounds := a.range.lo_le_hi
    have bBounds := b.range.lo_le_hi
    rw [CharRange.lt_def, ← Char.ordinal_inj, Fin.ext_iff] at lt
    simp only [Char.lt_iff_ordinal_lt, Char.le_iff_ordinal_le, Fin.lt_def, Fin.le_def] at *
    omega

theorem precedes_of_not_before {a b : Transition} (after : ¬ a.before b = true)
    (disjoint : b.disjoint a = true) : b.Precedes a := by
  rw [before_iff] at after
  rw [disjoint_iff] at disjoint
  unfold Precedes
  have aBounds := a.range.lo_le_hi
  have bBounds := b.range.lo_le_hi
  rw [CharRange.lt_def, ← Char.ordinal_inj, Fin.ext_iff] at after
  simp only [Char.lt_iff_ordinal_lt, Char.le_iff_ordinal_le, Fin.lt_def, Fin.le_def] at *
  omega

theorem Precedes.trans {a b c : Transition} (first : a.Precedes b) (second : b.Precedes c) :
    a.Precedes c := by
  have bounds := b.range.lo_le_hi
  unfold Precedes at *
  simp only [Char.lt_iff_ordinal_lt, Char.le_iff_ordinal_le, Fin.lt_def, Fin.le_def] at *
  omega

theorem Precedes.disjoint {a b : Transition} (precedes : a.Precedes b) : a.disjoint b = true := by
  rw [disjoint_iff]
  rcases precedes with lt | ⟨-, lt⟩
  · exact Or.inl (Nat.ne_of_lt lt)
  · exact Or.inr (Or.inl lt)

theorem disjoint_comm (a b : Transition) : a.disjoint b = b.disjoint a := by
  rw [Bool.eq_iff_iff, disjoint_iff, disjoint_iff, ne_comm, or_comm (a := a.range.hi < b.range.lo)]

end Transition

namespace Table

/-- Every transition precedes the ones behind it. -/
def Sorted (table : Table) : Prop :=
  table.transitions.toList.Pairwise Transition.Precedes

theorem sorted_empty : empty.Sorted := List.Pairwise.nil

theorem Sorted.precedes {table : Table} (sorted : table.Sorted) {i j : Nat} {a b : Transition}
    (lt : i < j) (at_i : table.transitions[i]? = some a) (at_j : table.transitions[j]? = some b) :
    a.Precedes b := by
  rw [← Array.getElem?_toList] at at_i at_j
  obtain ⟨iInside, rfl⟩ := List.getElem?_eq_some_iff.1 at_i
  obtain ⟨jInside, rfl⟩ := List.getElem?_eq_some_iff.1 at_j
  exact List.pairwise_iff_getElem.1 sorted i j iInside jInside lt

/-- What the look-up finds is the place of a transition out of the source on the character. -/
theorem of_find?_eq_some {table : Table} {source : Nat} {c : Char} {place : Nat}
    (found : table.find? source c = some place) :
    ∃ transition, table.transitions[place]? = some transition ∧ transition.source = source ∧
      c ∈ transition.range := by
  unfold find? at found
  extract_lets point at found
  split at found
  · rename_i transition present
    split at found
    · rename_i fits
      obtain rfl := Option.some.inj found
      exact ⟨transition, present, fits⟩
    · cases found
  · cases found

theorem of_get?_eq_some {table : Table} {source : Nat} {c : Char} {transition : Transition}
    (found : table.get? source c = some transition) :
    transition ∈ table.transitions ∧ transition.source = source ∧ c ∈ transition.range := by
  obtain ⟨place, at_place, same⟩ := Option.bind_eq_some_iff.1 found
  obtain ⟨candidate, present, fits⟩ := of_find?_eq_some at_place
  obtain rfl : candidate = transition := Option.some.inj (present.symm.trans same)
  exact ⟨Array.mem_of_getElem? present, fits⟩

/-- In a sorted table the place of every transition is found on the characters of its range. -/
theorem Sorted.find?_eq_some {table : Table} (sorted : table.Sorted) {transition : Transition}
    {place : Nat} (at_place : table.transitions[place]? = some transition) {c : Char}
    (inside : c ∈ transition.range) : table.find? transition.source c = some place := by
  have point : partitionPoint table.transitions (fun other =>
      other.source < transition.source ||
        (other.source = transition.source && other.range.hi < c)) = place := by
    apply partitionPoint_eq _ _ ?_ place transition at_place
    · have notBefore : ¬ transition.range.hi < c := Char.not_lt.2 inside.2
      simp [notBefore]
    · intro j other lt at_j
      have order := sorted.precedes lt at_j at_place
      have lower := inside.1
      rw [Bool.or_eq_true, Bool.and_eq_true, decide_eq_true_eq, decide_eq_true_eq,
        decide_eq_true_eq]
      rcases order with less | ⟨same, less⟩
      · exact Or.inl less
      · right
        refine ⟨same, ?_⟩
        rw [Char.lt_iff_ordinal_lt, Fin.lt_def] at less ⊢
        rw [Char.le_iff_ordinal_le, Fin.le_def] at lower
        omega
    · intro i j a b le at_i at_j passes
      rcases Nat.lt_or_eq_of_le le with lt | rfl
      · have order := sorted.precedes lt at_i at_j
        rw [Bool.or_eq_true, Bool.and_eq_true, decide_eq_true_eq, decide_eq_true_eq,
          decide_eq_true_eq] at passes ⊢
        have bBounds := b.range.lo_le_hi
        unfold Transition.Precedes at order
        simp only [Char.lt_iff_ordinal_lt, Char.le_iff_ordinal_le, Fin.lt_def, Fin.le_def] at *
        omega
      · rw [Option.some.inj (at_i.symm.trans at_j)]
        exact passes
  simp only [find?, point, at_place, inside, and_self, if_true]

theorem Sorted.get?_eq_some {table : Table} (sorted : table.Sorted) {transition : Transition}
    (member : transition ∈ table.transitions) {c : Char} (inside : c ∈ transition.range) :
    table.get? transition.source c = some transition := by
  obtain ⟨place, at_place⟩ := Array.mem_iff_getElem?.1 member
  rw [get?, sorted.find?_eq_some at_place inside, Option.bind_some, at_place]

theorem insertIdx_eq_append {α : Type} (x : α) (xs : List α) (i : Nat) (le : i ≤ xs.length) :
    xs.insertIdx i x = xs.take i ++ x :: xs.drop i := by
  induction xs generalizing i with
  | nil =>
    obtain rfl : i = 0 := Nat.le_zero.1 le
    rfl
  | cons first rest ih =>
    cases i with
    | zero => rfl
    | succ i =>
      rw [List.insertIdx_succ_cons, ih i (Nat.le_of_succ_le_succ le), List.take_succ_cons,
        List.drop_succ_cons, List.cons_append]

/-- A transition that is added stands at the place that is returned; the others keep their order. -/
theorem toList_of_insert {table after : Table} {transition : Transition} {place : Nat}
    (success : table.insert transition = .ok (place, after)) :
    place ≤ table.transitions.size ∧ after.transitions.toList =
      table.transitions.toList.take place ++ transition :: table.transitions.toList.drop place := by
  unfold insert at success
  extract_lets point left right at success
  split at success
  · obtain ⟨rfl, rfl⟩ := Prod.mk.inj (Except.ok.inj success)
    have within : point ≤ table.transitions.size := partitionPoint_le _ _
    refine ⟨within, ?_⟩
    rw [Array.insertIdxIfInBounds, dif_pos within, Array.toList_insertIdx,
      insertIdx_eq_append _ _ _ (by simpa using within)]
  · cases success

theorem perm_of_insert {table after : Table} {transition : Transition} {place : Nat}
    (success : table.insert transition = .ok (place, after)) :
    after.transitions.toList.Perm (transition :: table.transitions.toList) := by
  obtain ⟨-, whole⟩ := toList_of_insert success
  rw [whole]
  apply List.perm_middle.trans
  rw [List.take_append_drop]

/-- A table that takes in a transition keeps its other entries in their order. -/
theorem sublist_of_insert {table after : Table} {transition : Transition} {place : Nat}
    (success : table.insert transition = .ok (place, after)) :
    table.transitions.toList.Sublist after.transitions.toList := by
  obtain ⟨-, whole⟩ := toList_of_insert success
  have grows := ((table.transitions.toList.drop place).sublist_cons_self transition).append_left
    (table.transitions.toList.take place)
  rwa [List.take_append_drop, ← whole] at grows

theorem getElem?_of_insert {table after : Table} {transition : Transition} {place : Nat}
    (success : table.insert transition = .ok (place, after)) :
    after.transitions[place]? = some transition := by
  obtain ⟨le, whole⟩ := toList_of_insert success
  have length : (table.transitions.toList.take place).length = place := by
    rw [List.length_take, Array.length_toList]
    omega
  rw [← Array.getElem?_toList, whole, List.getElem?_append_right (by omega), length, Nat.sub_self,
    List.getElem?_cons_zero]

/-- In a sorted table the test of the order never turns back. -/
theorem Sorted.before_of_le {table : Table} (sorted : table.Sorted) (transition : Transition)
    (i j : Nat) (a b : Transition) (le : i ≤ j) (at_i : table.transitions[i]? = some a)
    (at_j : table.transitions[j]? = some b) (passes : b.before transition = true) :
    a.before transition = true := by
  rcases Nat.lt_or_eq_of_le le with lt | rfl
  · have order := (sorted.precedes lt at_i at_j).before
    rw [Transition.before_iff, CharRange.lt_def, ← Char.ordinal_inj, Fin.ext_iff]
      at order passes ⊢
    simp only [Char.lt_iff_ordinal_lt, Fin.lt_def] at *
    omega
  · rw [Option.some.inj (at_i.symm.trans at_j)]
    exact passes

/-- A transition that is disjoint from all others finds its place. -/
theorem Sorted.insert {table : Table} (sorted : table.Sorted) {transition : Transition}
    (apart : ∀ other ∈ table.transitions, transition.disjoint other = true) :
    ∃ place after, table.insert transition = .ok (place, after) ∧ after.Sorted ∧
      ∀ other, other ∈ after.transitions ↔ other = transition ∨ other ∈ table.transitions := by
  let place := partitionPoint table.transitions fun other => other.before transition
  have once := sorted.before_of_le transition
  have checked : ∀ i : Nat, (table.transitions[i]?).all transition.disjoint = true := by
    intro i
    cases at_i : table.transitions[i]? with
    | none => rfl
    | some other => exact apart other (Array.mem_of_getElem? at_i)
  have left : (if place = 0 then none else table.transitions[place - 1]?).all
      transition.disjoint = true := by
    split
    · rfl
    · exact checked _
  have success : table.insert transition =
      .ok (place, ⟨table.transitions.insertIdxIfInBounds place transition⟩) := by
    rw [Table.insert]
    exact if_pos ⟨left, checked place⟩
  obtain ⟨-, whole⟩ := toList_of_insert success
  have all := List.take_append_drop place table.transitions.toList
  refine ⟨place, _, success, ?_, ?_⟩
  · rw [Sorted, whole, List.pairwise_append, List.pairwise_cons]
    have passes : ∀ other ∈ table.transitions.toList.take place, other.Precedes transition := by
      intro other member
      obtain ⟨i, at_i⟩ := List.mem_iff_getElem?.1 member
      rw [List.getElem?_take] at at_i
      split at at_i
      · rename_i lt
        rw [Array.getElem?_toList] at at_i
        exact Transition.precedes_of_before
          ((lt_partitionPoint_iff _ _ once i other at_i).1 lt)
          (apart other (Array.mem_of_getElem? at_i))
      · cases at_i
    have fails : ∀ other ∈ table.transitions.toList.drop place, transition.Precedes other := by
      intro other member
      obtain ⟨i, at_i⟩ := List.mem_iff_getElem?.1 member
      rw [List.getElem?_drop, Array.getElem?_toList] at at_i
      apply Transition.precedes_of_not_before ?_ (apart other (Array.mem_of_getElem? at_i))
      intro early
      have lt := (lt_partitionPoint_iff _ _ once _ other at_i).2 early
      omega
    refine ⟨List.Pairwise.sublist (List.take_sublist _ _) sorted,
      ⟨fails, List.Pairwise.sublist (List.drop_sublist _ _) sorted⟩, ?_⟩
    intro a aMember b bMember
    rcases List.mem_cons.1 bMember with rfl | later
    · exact passes a aMember
    · rw [Sorted, ← all, List.pairwise_append] at sorted
      exact sorted.2.2 a aMember b later
  · intro other
    rw [← Array.mem_toList_iff, whole, ← Array.mem_toList_iff, List.mem_append, List.mem_cons,
      or_left_comm, ← List.mem_append, all]

end Table

end TaggedRegex
