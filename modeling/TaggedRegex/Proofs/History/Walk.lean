import Mathlib.Data.List.Nodup
import TaggedRegex.History.Renaming

set_option autoImplicit false

/-!
The shape of a one-to-one renaming: the names that follow a source, each the image of the one
before, are different, and they end either at a name without an image or back at the source.
-/

namespace TaggedRegex.Renaming

/-- No source and no target occurs twice. -/
def OneToOne (pairs : List (HistoryId × HistoryId)) : Prop :=
  (pairs.map Prod.fst).Nodup ∧ (pairs.map Prod.snd).Nodup

theorem mem_of_lookup {pairs : List (HistoryId × HistoryId)} {source target : HistoryId}
    (found : pairs.lookup source = some target) : (source, target) ∈ pairs := by
  obtain ⟨before, after, rfl, -⟩ := List.lookup_eq_some_iff.1 found
  simp

theorem OneToOne.image_unique {pairs : List (HistoryId × HistoryId)} (one : OneToOne pairs)
    {source first second : HistoryId} (left : (source, first) ∈ pairs)
    (right : (source, second) ∈ pairs) : first = second := by
  have same := List.inj_on_of_nodup_map one.1 left right rfl
  exact congrArg Prod.snd same

theorem OneToOne.preimage_unique {pairs : List (HistoryId × HistoryId)} (one : OneToOne pairs)
    {first second target : HistoryId} (left : (first, target) ∈ pairs)
    (right : (second, target) ∈ pairs) : first = second := by
  have same := List.inj_on_of_nodup_map one.2 left right rfl
  exact congrArg Prod.fst same

theorem OneToOne.lookup_eq_some {pairs : List (HistoryId × HistoryId)} (one : OneToOne pairs)
    {source target : HistoryId} (member : (source, target) ∈ pairs) :
    pairs.lookup source = some target := by
  cases found : pairs.lookup source with
  | none =>
    have absent := List.lookup_eq_none_iff.1 found (source, target) member
    simp at absent
  | some other => rw [one.image_unique (mem_of_lookup found) member]

theorem OneToOne.swap {pairs : List (HistoryId × HistoryId)} (one : OneToOne pairs) :
    OneToOne (pairs.map Prod.swap) := by
  unfold OneToOne
  rw [List.map_map, List.map_map]
  exact ⟨one.2, one.1⟩

theorem mem_swap_iff {pairs : List (HistoryId × HistoryId)} {source target : HistoryId} :
    (target, source) ∈ pairs.map Prod.swap ↔ (source, target) ∈ pairs := by
  rw [List.mem_map]
  constructor
  · rintro ⟨pair, member, swapped⟩
    obtain ⟨rfl, rfl⟩ := Prod.mk.inj swapped
    exact member
  · intro member
    exact ⟨(source, target), member, rfl⟩

theorem OneToOne.without {pairs : List (HistoryId × HistoryId)} (one : OneToOne pairs)
    (source : HistoryId) : OneToOne (without source pairs) := by
  have sublist : (Renaming.without source pairs).Sublist pairs := List.filter_sublist
  exact ⟨one.1.sublist (sublist.map Prod.fst), one.2.sublist (sublist.map Prod.snd)⟩

theorem mem_without {pairs : List (HistoryId × HistoryId)} {source : HistoryId}
    {pair : HistoryId × HistoryId} :
    pair ∈ without source pairs ↔ pair ∈ pairs ∧ pair.1 ≠ source := by
  simp [without]

/-! ### Neighbours in a list of names -/

/-- The neighbours in a list of names that begins with `first`. -/
def neighbours (first : HistoryId) (names : List HistoryId) : List (HistoryId × HistoryId) :=
  (first :: names).zip names

@[simp] theorem neighbours_nil (first : HistoryId) : neighbours first [] = [] := rfl

@[simp] theorem neighbours_cons (first second : HistoryId) (names : List HistoryId) :
    neighbours first (second :: names) = (first, second) :: neighbours second names := rfl

theorem mem_of_mem_neighbours {first a b : HistoryId} {names : List HistoryId}
    (member : (a, b) ∈ neighbours first names) : a ∈ first :: names ∧ b ∈ names :=
  ⟨(List.of_mem_zip member).1, (List.of_mem_zip member).2⟩

/-- All names but the first one have a name before them. -/
theorem exists_before (first : HistoryId) {b : HistoryId} {names : List HistoryId}
    (member : b ∈ names) :
    ∃ a, (a, b) ∈ neighbours first names := by
  induction names generalizing first with
  | nil => cases member
  | cons second names ih =>
    rcases List.mem_cons.1 member with rfl | later
    · exact ⟨first, by simp⟩
    · obtain ⟨a, found⟩ := ih second later
      exact ⟨a, by simp [found]⟩

/-- All names but the last one have a name after them. -/
theorem exists_after {first a : HistoryId} {names : List HistoryId} (member : a ∈ first :: names) :
    (first :: names).getLast? = some a ∨ ∃ b, (a, b) ∈ neighbours first names := by
  induction names generalizing first with
  | nil =>
    left
    rw [List.mem_singleton.1 member]
    rfl
  | cons second names ih =>
    rcases List.mem_cons.1 member with rfl | later
    · exact Or.inr ⟨second, by simp⟩
    · rcases ih later with last | ⟨b, found⟩
      · exact Or.inl (by rw [List.getLast?_cons_cons, last])
      · exact Or.inr ⟨b, by simp [found]⟩

theorem neighbours_concat (first next : HistoryId) (names : List HistoryId) :
    ∃ last, (first :: names).getLast? = some last ∧
      neighbours first (names ++ [next]) = neighbours first names ++ [(last, next)] := by
  induction names generalizing first with
  | nil => exact ⟨first, rfl, rfl⟩
  | cons second names ih =>
    obtain ⟨last, ends, split⟩ := ih second
    refine ⟨last, ?_, ?_⟩
    · rw [List.getLast?_cons_cons, ends]
    · rw [List.cons_append, neighbours_cons, neighbours_cons, split, List.cons_append]

/-! ### Walks -/

theorem walk_eq_cons {pairs : List (HistoryId × HistoryId)} {source target : HistoryId}
    (found : pairs.lookup source = some target) :
    walk pairs source = target :: walk (Renaming.without source pairs) target := by
  rw [walk]
  split
  · rename_i missing
    rw [found] at missing
    cases missing
  · rename_i other also
    obtain rfl := Option.some.inj (found.symm.trans also)
    rfl

theorem neighbours_walk {pairs : List (HistoryId × HistoryId)} {source : HistoryId}
    {pair : HistoryId × HistoryId} (member : pair ∈ neighbours source (walk pairs source)) :
    pair ∈ pairs := by
  fun_induction walk pairs source with
  | case1 => simp at member
  | case2 pairs source target found ih =>
    rw [neighbours_cons] at member
    rcases List.mem_cons.1 member with rfl | later
    · exact mem_of_lookup found
    · exact (mem_without.1 (ih later)).1

/-- Every name on a walk is a target. -/
theorem exists_mem_of_mem_walk {pairs : List (HistoryId × HistoryId)} {source b : HistoryId}
    (member : b ∈ walk pairs source) : ∃ a, (a, b) ∈ pairs := by
  obtain ⟨a, found⟩ := exists_before source member
  exact ⟨a, neighbours_walk found⟩

/-- The pairs that are left after one has been used do not lead to its target again. -/
theorem OneToOne.target_not_mem_walk {pairs : List (HistoryId × HistoryId)} (one : OneToOne pairs)
    {source target : HistoryId} (member : (source, target) ∈ pairs) (start : HistoryId) :
    target ∉ walk (Renaming.without source pairs) start := by
  intro again
  obtain ⟨other, found⟩ := exists_mem_of_mem_walk again
  obtain ⟨inside, different⟩ := mem_without.1 found
  exact different (one.preimage_unique inside member)

theorem OneToOne.nodup_walk {pairs : List (HistoryId × HistoryId)} (one : OneToOne pairs)
    (source : HistoryId) : (walk pairs source).Nodup := by
  fun_induction walk pairs source with
  | case1 => exact List.nodup_nil
  | case2 pairs source target found ih =>
    rw [List.nodup_cons]
    exact ⟨one.target_not_mem_walk (mem_of_lookup found) target, ih (one.without source)⟩

/-- A walk ends at a name without an image, or back where it began. -/
theorem OneToOne.walk_ends {pairs : List (HistoryId × HistoryId)} (one : OneToOne pairs)
    {source last : HistoryId} (ends : (source :: walk pairs source).getLast? = some last) :
    pairs.lookup last = none ∨ last = source ∧ last ∈ walk pairs source := by
  fun_induction walk pairs source with
  | case1 pairs source missing =>
    obtain rfl : source = last := by simpa using ends
    exact Or.inl missing
  | case2 pairs source target found ih =>
    rw [List.getLast?_cons_cons] at ends
    have last_mem : last ∈ target :: walk (Renaming.without source pairs) target :=
      List.mem_of_getLast? ends
    rcases ih (one.without source) ends with missing | ⟨rfl, again⟩
    · by_cases back : last = source
      · exact Or.inr ⟨back, last_mem⟩
      · left
        rw [List.lookup_eq_none_iff] at missing ⊢
        intro pair member
        by_cases left : pair.1 = source
        · simp [left, back]
        · exact missing pair (mem_without.2 ⟨member, left⟩)
    · exact absurd again (one.target_not_mem_walk (mem_of_lookup found) last)

end TaggedRegex.Renaming
