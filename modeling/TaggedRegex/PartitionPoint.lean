set_option autoImplicit false

/-!
Binary search for the point where a test on the entries of an array turns from true to false.
`lt_partitionPoint_iff` says that for a test which never turns back the answer separates the
entries that pass from those that fail.
-/

namespace TaggedRegex

/-- The boundary inside `lo ≤ i < hi`: the half that cannot hold it is dropped at every step. -/
def boundaryBetween {α : Type} (xs : Array α) (test : α → Bool) (lo hi : Nat) : Nat :=
  if lo < hi then
    let mid := lo + (hi - lo) / 2
    match xs[mid]? with
    | some x => if test x then boundaryBetween xs test (mid + 1) hi
        else boundaryBetween xs test lo mid
    | none => boundaryBetween xs test lo mid
  else lo
termination_by hi - lo

/-- The number of leading entries that pass `test`, for an array whose passing entries come
first. -/
def partitionPoint {α : Type} (xs : Array α) (test : α → Bool) : Nat :=
  boundaryBetween xs test 0 xs.size

/-- The search stays inside its bounds. -/
theorem boundaryBetween_mem {α : Type} (xs : Array α) (test : α → Bool) (lo hi : Nat)
    (le : lo ≤ hi) :
    lo ≤ boundaryBetween xs test lo hi ∧ boundaryBetween xs test lo hi ≤ hi := by
  fun_induction boundaryBetween xs test lo hi with
  | case1 lo hi lt mid x found pass ih => have := ih (by omega); omega
  | case2 lo hi lt mid x found fail ih => have := ih (by omega); omega
  | case3 lo hi lt mid missing ih => have := ih (by omega); omega
  | case4 lo hi ge => omega

theorem partitionPoint_le {α : Type} (xs : Array α) (test : α → Bool) :
    partitionPoint xs test ≤ xs.size :=
  (boundaryBetween_mem xs test 0 xs.size (Nat.zero_le _)).2

/-- Inside the searched part the boundary separates passing from failing entries. -/
theorem lt_boundaryBetween_iff {α : Type} (xs : Array α) (test : α → Bool) (lo hi : Nat)
    (inside : hi ≤ xs.size)
    (once : ∀ (i j : Nat) (x y : α), i ≤ j → xs[i]? = some x → xs[j]? = some y →
      test y = true → test x = true)
    (i : Nat) (x : α) (at_i : xs[i]? = some x) (lo_le : lo ≤ i) (lt_hi : i < hi) :
    i < boundaryBetween xs test lo hi ↔ test x = true := by
  fun_induction boundaryBetween xs test lo hi with
  | case1 lo hi lt mid y at_mid pass ih =>
    have bounds := boundaryBetween_mem xs test (mid + 1) hi (by omega)
    by_cases left : i ≤ mid
    · exact ⟨fun _ => once i mid x y left at_i at_mid pass, fun _ => by omega⟩
    · exact ih inside (by omega) lt_hi
  | case2 lo hi lt mid y at_mid fail ih =>
    have bounds := boundaryBetween_mem xs test lo mid (by omega)
    by_cases left : i < mid
    · exact ih (by omega) lo_le left
    · have fails : ¬ test x = true := fun passes =>
        fail (once mid i y x (by omega) at_mid at_i passes)
      exact ⟨fun before => by omega, fun passes => absurd passes fails⟩
  | case3 lo hi lt mid missing ih =>
    rw [Array.getElem?_eq_none_iff] at missing
    omega
  | case4 lo hi ge => omega

/-- For a test that never turns back, the entries before the partition point are the ones that
pass. -/
theorem lt_partitionPoint_iff {α : Type} (xs : Array α) (test : α → Bool)
    (once : ∀ (i j : Nat) (x y : α), i ≤ j → xs[i]? = some x → xs[j]? = some y →
      test y = true → test x = true)
    (i : Nat) (x : α) (at_i : xs[i]? = some x) :
    i < partitionPoint xs test ↔ test x = true :=
  lt_boundaryBetween_iff xs test 0 xs.size (Nat.le_refl _) once i x at_i (Nat.zero_le _)
    (Array.getElem?_eq_some_iff.1 at_i).1

/-- The partition point is the place of an entry that fails if all entries before it pass. -/
theorem partitionPoint_eq {α : Type} (xs : Array α) (test : α → Bool)
    (once : ∀ (i j : Nat) (x y : α), i ≤ j → xs[i]? = some x → xs[j]? = some y →
      test y = true → test x = true)
    (i : Nat) (x : α) (at_i : xs[i]? = some x) (fails : test x = false)
    (before : ∀ (j : Nat) (y : α), j < i → xs[j]? = some y → test y = true) :
    partitionPoint xs test = i := by
  have not_before : ¬ i < partitionPoint xs test := by
    rw [lt_partitionPoint_iff xs test once i x at_i, fails]
    decide
  by_cases less : partitionPoint xs test < i
  · have inside : i < xs.size := (Array.getElem?_eq_some_iff.1 at_i).1
    have at_point : xs[partitionPoint xs test]? = some xs[partitionPoint xs test] :=
      Array.getElem?_eq_getElem (by omega)
    have passes := before _ _ less at_point
    have := (lt_partitionPoint_iff xs test once _ _ at_point).2 passes
    omega
  · omega

end TaggedRegex
