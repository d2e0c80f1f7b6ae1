import Mathlib.Data.Finite.Prod
import Mathlib.Data.Finite.Sigma
import Mathlib.Data.List.Permutation
import Mathlib.Data.Set.Finite.List
import Mathlib.Data.Setoid.Basic
import TaggedRegex.Proofs.Determinised.Mappability
import TaggedRegex.Proofs.Growth.Names

set_option autoImplicit false

/-!
What is left of a configuration when the names of its histories are forgotten. An automaton has
finitely many such blueprints, and configurations with the same one can be renamed into each other.
-/

namespace TaggedRegex

variable {automaton : Automaton}

/-- Live states, at least one and none twice, and which slots of theirs hold the same history. -/
structure Blueprint (automaton : Automaton) where
  key : List StateId
  nonempty : key ≠ []
  distinct : key.Nodup
  live : ∀ state ∈ key, automaton.isLive state = true
  sharing : Setoid (Fin key.length × Fin automaton.tags.length)

theorem Automaton.mem_of_isLive {state : StateId} (live : automaton.isLive state = true) :
    state ∈ automaton.accept :: automaton.rows.map Row.source := by
  unfold isLive at live
  simp only [Bool.or_eq_true, decide_eq_true_eq, List.any_eq_true] at live
  rcases live with rfl | ⟨row, member, same, -⟩
  · exact List.mem_cons_self ..
  · exact List.mem_cons_of_mem _ (List.mem_map.2 ⟨row, member, same⟩)

namespace Blueprint

/-- What the key of a blueprint may be. -/
def Key (automaton : Automaton) : Type :=
  {key : List StateId // key ≠ [] ∧ key.Nodup ∧ ∀ state ∈ key, automaton.isLive state = true}

/-- A blueprint is a key, and which of its slots hold the same history. -/
def assemble (parts : Σ key : Key automaton,
    Setoid (Fin key.val.length × Fin automaton.tags.length)) : Blueprint automaton :=
  ⟨parts.1.val, parts.1.property.1, parts.1.property.2.1, parts.1.property.2.2, parts.2⟩

theorem assemble_surjective (automaton : Automaton) :
    Function.Surjective (@assemble automaton) := fun blueprint =>
  ⟨⟨⟨blueprint.key, blueprint.nonempty, blueprint.distinct, blueprint.live⟩, blueprint.sharing⟩,
    rfl⟩

/-- A key arranges some of the states that may be live. -/
instance (automaton : Automaton) : Finite (Key automaton) := by
  let states := automaton.accept :: automaton.rows.map Row.source
  apply Set.Finite.to_subtype
  apply (List.finite_toSet (states.sublists.flatMap List.permutations)).subset
  rintro key ⟨-, distinct, live⟩
  obtain ⟨chosen, arranged, sublist⟩ :=
    distinct.subperm fun state member => Automaton.mem_of_isLive (live state member)
  apply List.mem_flatMap.2
  exact ⟨chosen, List.mem_sublists.2 sublist, List.mem_permutations.2 arranged.symm⟩

instance (automaton : Automaton) : Finite (Blueprint automaton) := by
  have sharings : ∀ key : Key automaton,
      Finite (Setoid (Fin key.val.length × Fin automaton.tags.length)) := by
    intro key
    exact Finite.of_injective (fun sharing => sharing.r) fun first second same =>
      Setoid.ext fun left right => iff_of_eq (congrFun (congrFun same left) right)
  exact Finite.of_surjective assemble (assemble_surjective automaton)

theorem sharing_congr {first second : Blueprint automaton} (same : first = second) {i k : Nat}
    (iFirst : i < first.key.length) (kFirst : k < first.key.length)
    (iSecond : i < second.key.length) (kSecond : k < second.key.length)
    (j l : Fin automaton.tags.length) :
    first.sharing.r (⟨i, iFirst⟩, j) (⟨k, kFirst⟩, l) ↔
      second.sharing.r (⟨i, iSecond⟩, j) (⟨k, kSecond⟩, l) := by
  subst same
  rfl

end Blueprint

namespace Configuration

/-- What a configuration is apart from the names of its histories. -/
def blueprint (configuration : Configuration) (occurs : configuration.Occurs automaton)
    (distinct : configuration.key.Nodup) : Blueprint automaton where
  key := configuration.key
  nonempty := occurs.nonempty
  distinct := distinct
  live := occurs.live
  sharing := Setoid.ker fun place => configuration.historyAt? place.1 place.2

theorem length_key (configuration : Configuration) :
    configuration.key.length = configuration.threads.length :=
  List.length_map _

theorem bounds_of_historyAt? {configuration : Configuration}
    (lengths : ∀ thread ∈ configuration.threads, thread.histories.length = automaton.tags.length)
    {thread slot : Nat} {history : HistoryId}
    (found : configuration.historyAt? thread slot = some history) :
    thread < configuration.key.length ∧ slot < automaton.tags.length := by
  obtain ⟨here, atThread, atSlot⟩ := Option.bind_eq_some_iff.1 found
  refine ⟨?_, ?_⟩
  · rw [length_key]
    exact (List.getElem?_eq_some_iff.1 atThread).1
  · rw [← lengths here (List.mem_of_getElem? atThread)]
    exact (List.getElem?_eq_some_iff.1 atSlot).1

/-- Configurations that differ in nothing but the names of their histories are mappable. -/
theorem mappableOnto_of_blueprint_eq {source target : Configuration}
    (sourceOccurs : source.Occurs automaton) (sourceDistinct : source.key.Nodup)
    (targetOccurs : target.Occurs automaton) (targetDistinct : target.key.Nodup)
    (sourceLengths : ∀ thread ∈ source.threads, thread.histories.length = automaton.tags.length)
    (same : source.blueprint sourceOccurs sourceDistinct =
      target.blueprint targetOccurs targetDistinct) : source.MappableOnto target := by
  have keys : source.key = target.key := congrArg Blueprint.key same
  refine ⟨keys, (renamingOnto?_isSome_iff source target).2 ?_⟩
  rintro ⟨first, firstImage⟩ left ⟨second, secondImage⟩ right
  obtain ⟨i, j, firstAt, firstImageAt⟩ := mem_historyPairs_iff.1 left
  obtain ⟨k, l, secondAt, secondImageAt⟩ := mem_historyPairs_iff.1 right
  dsimp only at firstAt firstImageAt secondAt secondImageAt ⊢
  obtain ⟨iInside, jInside⟩ := bounds_of_historyAt? sourceLengths firstAt
  obtain ⟨kInside, lInside⟩ := bounds_of_historyAt? sourceLengths secondAt
  have bound : ∀ {i : Nat}, i < source.key.length → i < target.key.length := by
    rw [keys]
    exact id
  -- On both sides the two places hold one history or two.
  have shared := Blueprint.sharing_congr same iInside kInside (bound iInside) (bound kInside)
    ⟨j, jInside⟩ ⟨l, lInside⟩
  have agree : source.historyAt? i j = source.historyAt? k l ↔
      target.historyAt? i j = target.historyAt? k l := shared
  rw [firstAt, secondAt, firstImageAt, secondImageAt, Option.some_inj, Option.some_inj] at agree
  exact agree

end Configuration

end TaggedRegex
