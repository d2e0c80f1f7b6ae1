import TaggedRegex.Proofs.Determinised.Merging

set_option autoImplicit false

/-!
Merging is complete. The renaming that is built pair by pair is found whenever there is one at all:
when the two configurations hold equal histories in the same pairs of slots.
-/

namespace TaggedRegex

namespace Renaming

/-- No source is paired with two targets, and no target with two sources. A pair may occur more
than once. -/
def Compatible (pairs : List (HistoryId × HistoryId)) : Prop :=
  ∀ first ∈ pairs, ∀ second ∈ pairs, first.1 = second.1 ↔ first.2 = second.2

theorem OneToOne.compatible {pairs : List (HistoryId × HistoryId)} (one : OneToOne pairs) :
    Compatible pairs := by
  intro first left second right
  constructor
  · intro same
    have also : (first.1, second.2) ∈ pairs := by
      rw [same]
      exact right
    exact one.image_unique left also
  · intro same
    have also : (second.1, first.2) ∈ pairs := by
      rw [same]
      exact right
    exact one.preimage_unique left also

theorem Compatible.of_subset {pairs more : List (HistoryId × HistoryId)}
    (compatible : Compatible more) (subset : ∀ pair ∈ pairs, pair ∈ more) : Compatible pairs :=
  fun first left second right => compatible first (subset first left) second (subset second right)

/-- A pair that is compatible with the others never clashes. -/
theorem exists_insert {pairing : Renaming} {source target : HistoryId}
    (compatible : Compatible ((source, target) :: pairing.pairs)) :
    ∃ new after, pairing.insert source target = .ok (new, after) := by
  unfold insert
  split
  · exact ⟨false, pairing, rfl⟩
  · rename_i absent
    have here : (source, target) ∈ (source, target) :: pairing.pairs := List.mem_cons_self ..
    cases image : pairing.image? source with
    | some other =>
      have member := mem_of_lookup image
      have same : target = other :=
        (compatible _ here _ (List.mem_cons_of_mem _ member)).1 rfl
      rw [same] at absent
      exact absurd member absent
    | none =>
      cases preimage : pairing.preimage? target with
      | some other =>
        have member := mem_swap_iff.1 (mem_of_lookup preimage)
        have same : source = other :=
          (compatible _ here _ (List.mem_cons_of_mem _ member)).2 rfl
        rw [same] at absent
        exact absurd member absent
      | none => exact ⟨true, _, rfl⟩

end Renaming

namespace Configuration

open Renaming (Compatible)

/-- Pairs can be put together one by one if all of them are compatible. -/
theorem renamingOfPairs?_isSome {pairs : List (HistoryId × HistoryId)} {pairing : Renaming}
    (one : Renaming.OneToOne pairing.pairs) (compatible : Compatible (pairing.pairs ++ pairs)) :
    (renamingOfPairs? pairing pairs).isSome = true := by
  induction pairs generalizing pairing with
  | nil => rfl
  | cons first rest ih =>
    obtain ⟨source, target⟩ := first
    obtain ⟨new, after, success⟩ : ∃ new after, pairing.insert source target = .ok (new, after) :=
      Renaming.exists_insert (compatible.of_subset (by grind))
    obtain ⟨afterOne, members⟩ := insert_eq_ok success one
    rw [renamingOfPairs?, success]
    -- The pair has moved to those that are inserted; together they are the same pairs.
    apply ih afterOne
    apply compatible.of_subset
    intro pair member
    rw [List.mem_append, members] at member
    rw [List.mem_append, List.mem_cons]
    tauto

/-- One configuration can be renamed into another exactly if corresponding slots never disagree
about which histories are equal. -/
theorem renamingOnto?_isSome_iff (source target : Configuration) :
    (source.renamingOnto? target).isSome = true ↔ Compatible (source.historyPairs target) := by
  constructor
  · intro isSome
    obtain ⟨pairing, success⟩ := Option.isSome_iff_exists.1 isSome
    obtain ⟨one, members⟩ := renamingOnto?_eq_some success
    exact one.compatible.of_subset fun pair member => (members pair).2 member
  · intro compatible
    exact renamingOfPairs?_isSome ⟨List.nodup_nil, List.nodup_nil⟩ compatible

/-- The history in a slot of a thread, both counted from the first. -/
def historyAt? (configuration : Configuration) (thread slot : Nat) : Option HistoryId :=
  configuration.threads[thread]?.bind fun found => found.histories[slot]?

theorem mem_historyPairs_iff {source target : Configuration} {pair : HistoryId × HistoryId} :
    pair ∈ source.historyPairs target ↔
      ∃ thread slot, source.historyAt? thread slot = some pair.1 ∧
        target.historyAt? thread slot = some pair.2 := by
  unfold historyPairs historyAt?
  rw [List.mem_flatMap]
  constructor
  · rintro ⟨threads, both, slots⟩
    obtain ⟨i, atThread⟩ := List.mem_iff_getElem?.1 both
    obtain ⟨j, atSlot⟩ := List.mem_iff_getElem?.1 slots
    rw [List.getElem?_zip_eq_some] at atThread atSlot
    refine ⟨i, j, ?_, ?_⟩
    · rw [atThread.1]
      exact atSlot.1
    · rw [atThread.2]
      exact atSlot.2
  · rintro ⟨i, j, left, right⟩
    obtain ⟨leftThread, leftAt, leftSlot⟩ := Option.bind_eq_some_iff.1 left
    obtain ⟨rightThread, rightAt, rightSlot⟩ := Option.bind_eq_some_iff.1 right
    refine ⟨(leftThread, rightThread), ?_, ?_⟩
    · exact List.mem_of_getElem? (List.getElem?_zip_eq_some.2 ⟨leftAt, rightAt⟩)
    · exact List.mem_of_getElem? (List.getElem?_zip_eq_some.2 ⟨leftSlot, rightSlot⟩)

/-- How many histories each thread has. -/
def slotCounts (configuration : Configuration) : List Nat :=
  configuration.threads.map fun thread => thread.histories.length

theorem slotCounts_eq_of_forall {source target : Configuration} {slots : Nat}
    (keys : source.key = target.key)
    (sourceCounts : ∀ thread ∈ source.threads, thread.histories.length = slots)
    (targetCounts : ∀ thread ∈ target.threads, thread.histories.length = slots) :
    source.slotCounts = target.slotCounts := by
  have threads : source.threads.length = target.threads.length := by
    simpa only [key, List.length_map] using congrArg List.length keys
  rw [slotCounts, slotCounts, List.map_congr_left sourceCounts, List.map_congr_left targetCounts,
    List.map_const', List.map_const', threads]

/-- Threads in the same place have equally many histories. -/
theorem length_histories_of_mem_zip {source target : Configuration}
    (counts : source.slotCounts = target.slotCounts) {both : Thread × Thread}
    (member : both ∈ source.threads.zip target.threads) :
    both.1.histories.length = both.2.histories.length := by
  obtain ⟨i, atThread⟩ := List.mem_iff_getElem?.1 member
  obtain ⟨left, right⟩ := List.getElem?_zip_eq_some.1 atThread
  have same : source.slotCounts[i]? = target.slotCounts[i]? := by rw [counts]
  simpa [slotCounts, left, right] using same

theorem mem_historyPairs_swap {source target : Configuration} {pair : HistoryId × HistoryId}
    (member : pair ∈ target.historyPairs source) : pair.swap ∈ source.historyPairs target := by
  obtain ⟨thread, slot, left, right⟩ := mem_historyPairs_iff.1 member
  exact mem_historyPairs_iff.2 ⟨thread, slot, right, left⟩

/-- The configurations have the same key, and the histories of the first can be renamed into those
of the second. -/
def MappableOnto (source target : Configuration) : Prop :=
  source.key = target.key ∧ (source.renamingOnto? target).isSome = true

theorem MappableOnto.symm {source target : Configuration} (mappable : source.MappableOnto target) :
    target.MappableOnto source := by
  refine ⟨mappable.1.symm, (renamingOnto?_isSome_iff target source).2 ?_⟩
  have compatible := (renamingOnto?_isSome_iff source target).1 mappable.2
  intro first left second right
  exact (compatible _ (mem_historyPairs_swap left) _ (mem_historyPairs_swap right)).symm

end Configuration

/-- No known configuration is passed over onto which the candidate could be renamed. -/
theorem Registry.findRenaming?_eq_none {registry : Registry} {candidate known : Configuration}
    (missing : registry.findRenaming? candidate = none) {index : Nat}
    (registered : registry.get? index = some known) : ¬ candidate.MappableOnto known := by
  rintro ⟨keys, isSome⟩
  have member : (known, index) ∈ registry.configurations.toList.zipIdx := by
    rw [List.mem_zipIdx_iff_getElem?, Array.getElem?_toList]
    exact registered
  have test := List.findSome?_eq_none_iff.1 missing _ member
  dsimp only at test
  rw [if_pos keys.symm, Option.map_eq_none_iff] at test
  rw [test] at isSome
  cases isSome

end TaggedRegex
