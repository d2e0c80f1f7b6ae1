import TaggedRegex.Proofs.Guarded.Safety

set_option autoImplicit false

/-!
The search for a renaming misses nothing. Histories are paired slot by slot and the search stops at
the first clash, yet a renaming is found whenever any one-to-one map does what is asked, and it is
that map. The configurations of one key that can be renamed into each other therefore fall into
classes, and a candidate is given the number of the first known configuration of its class.
-/

namespace TaggedRegex

namespace Configuration

/-- The histories that occur, in the order of threads and slots. -/
def histories (configuration : Configuration) : List HistoryId :=
  configuration.threads.flatMap Thread.histories

theorem mem_histories_iff {configuration : Configuration} {id : HistoryId} :
    id ∈ configuration.histories ↔
      ∃ thread slot, configuration.historyAt? thread slot = some id := by
  unfold histories historyAt?
  rw [List.mem_flatMap]
  constructor
  · rintro ⟨found, member, inside⟩
    obtain ⟨i, atThread⟩ := List.mem_iff_getElem?.1 member
    obtain ⟨j, atSlot⟩ := List.mem_iff_getElem?.1 inside
    exact ⟨i, j, by rw [atThread]; exact atSlot⟩
  · rintro ⟨i, j, here⟩
    obtain ⟨found, atThread, atSlot⟩ := Option.bind_eq_some_iff.1 here
    exact ⟨found, List.mem_of_getElem? atThread, List.mem_of_getElem? atSlot⟩

/-- Where threads have equally many histories, every slot of one has its counterpart. -/
theorem exists_historyAt? {source target : Configuration}
    (counts : source.slotCounts = target.slotCounts) {thread slot : Nat} {id : HistoryId}
    (found : source.historyAt? thread slot = some id) :
    ∃ other, target.historyAt? thread slot = some other := by
  obtain ⟨left, leftAt, leftSlot⟩ := Option.bind_eq_some_iff.1 found
  have same : source.slotCounts[thread]? = target.slotCounts[thread]? := by rw [counts]
  rw [slotCounts, slotCounts, List.getElem?_map, List.getElem?_map, leftAt] at same
  obtain ⟨right, rightAt, lengths⟩ := Option.map_eq_some_iff.1 same.symm
  have inside : slot < right.histories.length := by
    rw [lengths]
    exact (List.getElem?_eq_some_iff.1 leftSlot).1
  refine ⟨right.histories[slot], ?_⟩
  rw [historyAt?, rightAt]
  exact List.getElem?_eq_getElem inside

/-- A map from the histories of one configuration to those of another. -/
abbrev HistoryMap (source target : Configuration) : Type :=
  {id // id ∈ source.histories} → {id // id ∈ target.histories}

namespace HistoryMap

variable {source target : Configuration}

/-- The history in every slot of every thread goes to the one in the same slot of the same
thread. -/
def KeepsPlaces (f : HistoryMap source target) : Prop :=
  ∀ (thread slot : Nat) (id : {id // id ∈ source.histories}),
    source.historyAt? thread slot = some id.1 → target.historyAt? thread slot = some (f id).1

/-- The pairs of the renaming are those of the map, each of them once. -/
def IsGivenBy (f : HistoryMap source target) (pairing : Renaming) : Prop :=
  Renaming.OneToOne pairing.pairs ∧
    ∀ a b, (a, b) ∈ pairing.pairs ↔ ∃ occurs : a ∈ source.histories, (f ⟨a, occurs⟩).1 = b

theorem KeepsPlaces.unique {f g : HistoryMap source target} (left : f.KeepsPlaces)
    (right : g.KeepsPlaces) : f = g := by
  funext id
  obtain ⟨thread, slot, here⟩ := mem_histories_iff.1 id.2
  apply Subtype.ext
  exact Option.some.inj ((left thread slot id here).symm.trans (right thread slot id here))

theorem KeepsPlaces.comp {other : Configuration} {f : HistoryMap source target}
    {g : HistoryMap target other} (first : f.KeepsPlaces) (second : g.KeepsPlaces) :
    KeepsPlaces (g ∘ f) :=
  fun thread slot id here => second thread slot (f id) (first thread slot id here)

/-- With a one-to-one map corresponding slots never disagree about which histories are equal. -/
theorem KeepsPlaces.compatible {f : HistoryMap source target} (places : f.KeepsPlaces)
    (injective : Function.Injective f) : Renaming.Compatible (source.historyPairs target) := by
  have paired : ∀ pair ∈ source.historyPairs target, ∃ occurs : pair.1 ∈ source.histories,
      (f ⟨pair.1, occurs⟩).1 = pair.2 := by
    intro pair member
    obtain ⟨thread, slot, left, right⟩ := mem_historyPairs_iff.1 member
    have occurs : pair.1 ∈ source.histories := mem_histories_iff.2 ⟨thread, slot, left⟩
    have sent := places thread slot ⟨pair.1, occurs⟩ left
    exact ⟨occurs, Option.some.inj (sent.symm.trans right)⟩
  intro first firstMember second secondMember
  obtain ⟨firstOccurs, firstSent⟩ := paired first firstMember
  obtain ⟨secondOccurs, secondSent⟩ := paired second secondMember
  rw [← firstSent, ← secondSent, ← Subtype.ext_iff, injective.eq_iff, Subtype.mk_eq_mk]

end HistoryMap

open HistoryMap (KeepsPlaces IsGivenBy)

variable {source target : Configuration}

/-- A renaming that has been found is a one-to-one map. -/
theorem exists_historyMap (counts : source.slotCounts = target.slotCounts) {pairing : Renaming}
    (found : source.renamingOnto? target = some pairing) :
    ∃ f : HistoryMap source target,
      Function.Injective f ∧ f.KeepsPlaces ∧ f.IsGivenBy pairing := by
  obtain ⟨one, members⟩ := renamingOnto?_eq_some found
  have image : ∀ id : {id // id ∈ source.histories}, ∃ other : {id // id ∈ target.histories},
      (id.1, other.1) ∈ pairing.pairs := by
    rintro ⟨id, occurs⟩
    obtain ⟨thread, slot, here⟩ := mem_histories_iff.1 occurs
    obtain ⟨other, there⟩ := exists_historyAt? counts here
    refine ⟨⟨other, mem_histories_iff.2 ⟨thread, slot, there⟩⟩, ?_⟩
    rw [members, mem_historyPairs_iff]
    exact ⟨thread, slot, here, there⟩
  choose f paired using image
  refine ⟨f, ?_, ?_, one, ?_⟩
  · intro first second same
    have also := paired second
    rw [← same] at also
    exact Subtype.ext (one.preimage_unique (paired first) also)
  · intro thread slot id here
    obtain ⟨other, there⟩ := exists_historyAt? counts here
    have pair : (id.1, other) ∈ pairing.pairs := by
      rw [members, mem_historyPairs_iff]
      exact ⟨thread, slot, here, there⟩
    rw [there, one.image_unique pair (paired id)]
  · intro a b
    constructor
    · intro member
      obtain ⟨thread, slot, here, -⟩ := mem_historyPairs_iff.1 ((members (a, b)).1 member)
      have occurs : a ∈ source.histories := mem_histories_iff.2 ⟨thread, slot, here⟩
      exact ⟨occurs, one.image_unique (paired ⟨a, occurs⟩) member⟩
    · rintro ⟨occurs, rfl⟩
      exact paired ⟨a, occurs⟩

/-- There is a renaming if and only if there is a one-to-one map that keeps all places. -/
theorem renamingOnto?_isSome_iff_exists_map (counts : source.slotCounts = target.slotCounts) :
    (source.renamingOnto? target).isSome = true ↔
      ∃ f : HistoryMap source target, Function.Injective f ∧ f.KeepsPlaces := by
  constructor
  · intro isSome
    obtain ⟨pairing, found⟩ := Option.isSome_iff_exists.1 isSome
    obtain ⟨f, injective, places, -⟩ := exists_historyMap counts found
    exact ⟨f, injective, places⟩
  · rintro ⟨f, injective, places⟩
    exact (renamingOnto?_isSome_iff source target).2 (places.compatible injective)

/-- The configurations with these states whose threads have so many histories. -/
abbrev Shaped (key : List StateId) (counts : List Nat) : Type :=
  {configuration : Configuration // configuration.key = key ∧ configuration.slotCounts = counts}

/-- Configurations with the same states and the same slots are classified by renamings. -/
theorem equivalence_renamingOnto? (key : List StateId) (counts : List Nat) :
    Equivalence fun source target : Shaped key counts =>
      (source.1.renamingOnto? target.1).isSome = true := by
  refine ⟨?_, ?_, ?_⟩
  · intro source
    apply (renamingOnto?_isSome_iff_exists_map rfl).2
    exact ⟨id, Function.injective_id, fun _ _ _ here => here⟩
  · intro source target isSome
    have keys := source.2.1.trans target.2.1.symm
    exact (MappableOnto.symm ⟨keys, isSome⟩).2
  · intro first second third early late
    have left := first.2.2.trans second.2.2.symm
    have right := second.2.2.trans third.2.2.symm
    obtain ⟨f, fInjective, fPlaces⟩ := (renamingOnto?_isSome_iff_exists_map left).1 early
    obtain ⟨g, gInjective, gPlaces⟩ := (renamingOnto?_isSome_iff_exists_map right).1 late
    apply (renamingOnto?_isSome_iff_exists_map (left.trans right)).2
    exact ⟨g ∘ f, gInjective.comp fInjective, fPlaces.comp gPlaces⟩

end Configuration

namespace Registry

/-- The configuration that is found has no other one before it that would have done. -/
theorem not_mappableOnto_of_lt {registry : Registry} {candidate : Configuration} {index : Nat}
    {pairing : Renaming} (found : registry.findRenaming? candidate = some (index, pairing))
    {earlier : Nat} (before : earlier < index) {other : Configuration}
    (registered : registry.get? earlier = some other) : ¬ candidate.MappableOnto other := by
  rintro ⟨keys, isSome⟩
  obtain ⟨passed, ⟨known, place⟩, rest, split, test, failed⟩ :=
    List.findSome?_eq_some_iff.1 found
  -- What is found stands in its own place, so everything before it has been tried.
  have atPlace : registry.configurations.toList.zipIdx[passed.length]? = some (known, place) := by
    rw [split, List.getElem?_append_right (Nat.le_refl _), Nat.sub_self]
    rfl
  rw [List.getElem?_zipIdx, Option.map_eq_some_iff] at atPlace
  obtain ⟨_, -, same⟩ := atPlace
  obtain ⟨-, rfl⟩ := Prod.mk.inj same
  dsimp only at test
  split at test
  · obtain ⟨_, -, same⟩ := Option.map_eq_some_iff.1 test
    obtain ⟨rfl, -⟩ := Prod.mk.inj same
    rw [Nat.zero_add] at before
    have tried : (other, earlier) ∈ passed := by
      apply List.mem_of_getElem? (i := earlier)
      have inFront : (passed ++ (known, 0 + passed.length) :: rest)[earlier]? = passed[earlier]? :=
        List.getElem?_append_left before
      rw [← inFront, ← split, List.getElem?_zipIdx, Array.getElem?_toList, Nat.zero_add]
      exact Option.map_eq_some_iff.2 ⟨other, registered, rfl⟩
    have clash := failed _ tried
    dsimp only at clash
    rw [if_pos keys.symm, Option.map_eq_none_iff] at clash
    rw [clash] at isSome
    cases isSome
  · cases test

/-- What is found is the first configuration that the candidate can be renamed into. -/
theorem findRenaming?_eq_some_iff {registry : Registry} {candidate : Configuration} {index : Nat}
    {pairing : Renaming} :
    registry.findRenaming? candidate = some (index, pairing) ↔
      (∃ known, registry.get? index = some known ∧ known.key = candidate.key ∧
        candidate.renamingOnto? known = some pairing) ∧
      ∀ earlier < index, ∀ other, registry.get? earlier = some other →
        ¬ candidate.MappableOnto other := by
  constructor
  · intro found
    exact ⟨findRenaming?_eq_some found,
      fun earlier before other registered => not_mappableOnto_of_lt found before registered⟩
  · rintro ⟨⟨known, registered, keys, renamed⟩, first⟩
    have mappable : candidate.MappableOnto known := ⟨keys.symm, by rw [renamed]; rfl⟩
    cases found : registry.findRenaming? candidate with
    | none => exact absurd mappable (findRenaming?_eq_none found registered)
    | some result =>
      obtain ⟨place, other⟩ := result
      obtain ⟨rival, rivalRegistered, rivalKeys, rivalRenamed⟩ := findRenaming?_eq_some found
      rcases Nat.lt_trichotomy place index with less | rfl | greater
      · exact absurd ⟨rivalKeys.symm, by rw [rivalRenamed]; rfl⟩
          (first place less rival rivalRegistered)
      · obtain rfl := Option.some.inj (registered.symm.trans rivalRegistered)
        rw [Option.some.inj (rivalRenamed.symm.trans renamed)]
      · exact absurd mappable (not_mappableOnto_of_lt found greater registered)

theorem findRenaming?_eq_none_iff {registry : Registry} {candidate : Configuration} :
    registry.findRenaming? candidate = none ↔
      ∀ index known, registry.get? index = some known → ¬ candidate.MappableOnto known := by
  constructor
  · exact fun missing index known registered => findRenaming?_eq_none missing registered
  · intro none
    cases found : registry.findRenaming? candidate with
    | none => rfl
    | some result =>
      obtain ⟨known, registered, keys, renamed⟩ := findRenaming?_eq_some found
      exact absurd ⟨keys.symm, by rw [renamed]; rfl⟩ (none _ known registered)

/-- The registry of some configurations, registered in this order. -/
def ofConfigurations (configurations : List Configuration) : Registry :=
  configurations.foldl (fun registry configuration => (registry.register configuration).2) .empty

theorem toList_foldl_register (registry : Registry) (configurations : List Configuration) :
    (configurations.foldl (fun registry configuration => (registry.register configuration).2)
      registry).configurations.toList = registry.configurations.toList ++ configurations := by
  induction configurations generalizing registry with
  | nil => exact (List.append_nil _).symm
  | cons first rest ih =>
    rw [List.foldl_cons, ih, register, Array.toList_push, List.append_assoc, List.singleton_append]

theorem get?_ofConfigurations (configurations : List Configuration) (index : Nat) :
    (ofConfigurations configurations).get? index = configurations[index]? := by
  rw [get?, ← Array.getElem?_toList, ofConfigurations, toList_foldl_register]
  rfl

end Registry

namespace GuardedMatcher

/-- Registers configurations one after the other. -/
def registerAll (g : GuardedMatcher) (configurations : List Configuration) : GuardedMatcher :=
  configurations.foldl (fun g configuration => (g.register configuration).2) g

theorem Tidy.registerAll {g : GuardedMatcher} (tidy : g.Tidy)
    (configurations : List Configuration) : (g.registerAll configurations).Tidy := by
  induction configurations generalizing g with
  | nil => exact tidy
  | cons first rest ih => exact ih (tidy.register first)

theorem registry_registerAll (g : GuardedMatcher) (configurations : List Configuration) :
    (g.registerAll configurations).matcher.registry =
      configurations.foldl (fun registry configuration => (registry.register configuration).2)
        g.matcher.registry := by
  induction configurations generalizing g with
  | nil => rfl
  | cons first rest ih => exact ih (g.register first).2

end GuardedMatcher

namespace Configuration

open HistoryMap (KeepsPlaces IsGivenBy)

/-- Histories are paired without a second try, and nothing is missed. Between configurations of one
shape there is a renaming if and only if some one-to-one map keeps all places, and it is the only
such map; being renamed into each other is an equivalence; and among registered configurations the
first one of the candidate's key that such a map leads to is found, also by way of the buckets. -/
theorem renaming_search_complete (key : List StateId) (counts : List Nat) :
    (∀ source target : Shaped key counts,
      ((source.1.renamingOnto? target.1).isSome = true ↔
        ∃ f : HistoryMap source.1 target.1, Function.Injective f ∧ f.KeepsPlaces) ∧
      (∀ pairing, source.1.renamingOnto? target.1 = some pairing →
        ∃ f : HistoryMap source.1 target.1, Function.Injective f ∧ f.KeepsPlaces ∧
          f.IsGivenBy pairing ∧ ∀ g : HistoryMap source.1 target.1, g.KeepsPlaces → g = f) ∧
      Pairing.between source.1 target.1 =
        .ok ((source.1.renamingOnto? target.1).map Pairing.ofRenaming)) ∧
    Equivalence (fun source target : Shaped key counts =>
      (source.1.renamingOnto? target.1).isSome = true) ∧
    ∀ (registered : List Configuration) (candidate : Shaped key counts),
      (∀ known ∈ registered, known.key = key → known.slotCounts = counts) →
      (∀ index pairing,
        (Registry.ofConfigurations registered).findRenaming? candidate.1 =
            some (index, pairing) ↔
          (∃ known, registered[index]? = some known ∧ known.key = key ∧
            candidate.1.renamingOnto? known = some pairing) ∧
          ∀ earlier < index, ∀ other, registered[earlier]? = some other → other.key = key →
            ¬ ∃ f : HistoryMap candidate.1 other, Function.Injective f ∧ f.KeepsPlaces) ∧
      ((Registry.ofConfigurations registered).findRenaming? candidate.1 = none ↔
        ∀ known ∈ registered, known.key = key →
          ¬ ∃ f : HistoryMap candidate.1 known, Function.Injective f ∧ f.KeepsPlaces) ∧
      ∀ g : GuardedMatcher, g.Tidy → g.matcher.registry = .empty →
        (g.registerAll registered).findMappable? candidate.1 =
          .ok (((Registry.ofConfigurations registered).findRenaming? candidate.1).map
            fun found => (found.1, Pairing.ofRenaming found.2)) := by
  refine ⟨?_, equivalence_renamingOnto? key counts, ?_⟩
  · intro source target
    have same := source.2.2.trans target.2.2.symm
    refine ⟨renamingOnto?_isSome_iff_exists_map same, ?_, ?_⟩
    · intro pairing found
      obtain ⟨f, injective, places, given⟩ := exists_historyMap same found
      exact ⟨f, injective, places, given, fun g others => others.unique places⟩
    · exact Pairing.between_eq (source.2.1.trans target.2.1.symm) same
  · intro registered candidate shaped
    have mappable_iff : ∀ known ∈ registered, candidate.1.MappableOnto known ↔
        known.key = key ∧
          ∃ f : HistoryMap candidate.1 known, Function.Injective f ∧ f.KeepsPlaces := by
      intro known member
      rw [MappableOnto, candidate.2.1, eq_comm (a := key)]
      apply and_congr_right
      intro keys
      exact renamingOnto?_isSome_iff_exists_map
        (candidate.2.2.trans (shaped known member keys).symm)
    refine ⟨?_, ?_, ?_⟩
    · intro index pairing
      rw [Registry.findRenaming?_eq_some_iff]
      simp only [Registry.get?_ofConfigurations, candidate.2.1]
      apply and_congr_right
      intro _
      apply forall₄_congr
      intro earlier _ other registeredAt
      rw [mappable_iff other (List.mem_of_getElem? registeredAt), not_and]
    · rw [Registry.findRenaming?_eq_none_iff]
      simp only [Registry.get?_ofConfigurations]
      constructor
      · intro none known member keys found
        obtain ⟨index, registeredAt⟩ := List.mem_iff_getElem?.1 member
        exact none index known registeredAt ((mappable_iff known member).2 ⟨keys, found⟩)
      · intro none index known registeredAt mappable
        have member := List.mem_of_getElem? registeredAt
        obtain ⟨keys, found⟩ := (mappable_iff known member).1 mappable
        exact none known member keys found
    · intro g tidy blank
      have registry : (g.registerAll registered).matcher.registry =
          Registry.ofConfigurations registered := by
        rw [GuardedMatcher.registry_registerAll, blank]
        rfl
      rw [GuardedMatcher.findMappable?_eq (tidy.registerAll registered), registry]
      intro index known registeredAt keys
      rw [registry, Registry.get?_ofConfigurations] at registeredAt
      rw [candidate.2.2]
      exact shaped known (List.mem_of_getElem? registeredAt) (keys.trans candidate.2.1)

/-- A configuration with two histories is not renamed into one whose slots share a history, which
is registered before. -/
theorem renaming_search_complete_shared :
    (∀ known ∈ [(⟨[⟨⟨1⟩, [⟨0⟩, ⟨0⟩]⟩]⟩ : Configuration), ⟨[⟨⟨2⟩, [⟨0⟩, ⟨1⟩, ⟨2⟩]⟩]⟩,
        ⟨[⟨⟨1⟩, [⟨1⟩, ⟨0⟩]⟩]⟩],
      known.key = [⟨1⟩] → known.slotCounts = [2]) ∧
    (∃ known, [(⟨[⟨⟨1⟩, [⟨0⟩, ⟨0⟩]⟩]⟩ : Configuration), ⟨[⟨⟨2⟩, [⟨0⟩, ⟨1⟩, ⟨2⟩]⟩]⟩,
          ⟨[⟨⟨1⟩, [⟨1⟩, ⟨0⟩]⟩]⟩][2]? = some known ∧ known.key = [⟨1⟩] ∧
        (⟨[⟨⟨1⟩, [⟨0⟩, ⟨4⟩]⟩]⟩ : Configuration).renamingOnto? known =
          some ⟨[(⟨0⟩, ⟨1⟩), (⟨4⟩, ⟨0⟩)]⟩) ∧
      ∀ earlier < 2, ∀ other, [(⟨[⟨⟨1⟩, [⟨0⟩, ⟨0⟩]⟩]⟩ : Configuration),
          ⟨[⟨⟨2⟩, [⟨0⟩, ⟨1⟩, ⟨2⟩]⟩]⟩, ⟨[⟨⟨1⟩, [⟨1⟩, ⟨0⟩]⟩]⟩][earlier]? = some other →
        other.key = [⟨1⟩] →
        ¬ ∃ f : HistoryMap ⟨[⟨⟨1⟩, [⟨0⟩, ⟨4⟩]⟩]⟩ other, Function.Injective f ∧ f.KeepsPlaces := by
  have shaped : ∀ known ∈ [(⟨[⟨⟨1⟩, [⟨0⟩, ⟨0⟩]⟩]⟩ : Configuration),
      ⟨[⟨⟨2⟩, [⟨0⟩, ⟨1⟩, ⟨2⟩]⟩]⟩, ⟨[⟨⟨1⟩, [⟨1⟩, ⟨0⟩]⟩]⟩],
      known.key = [⟨1⟩] → known.slotCounts = [2] := by decide
  have complete := renaming_search_complete [⟨1⟩] [2]
  exact ⟨shaped, ((complete.2.2 _ ⟨⟨[⟨⟨1⟩, [⟨0⟩, ⟨4⟩]⟩]⟩, by decide⟩ shaped).1 2 _).1 (by decide)⟩

end Configuration

end TaggedRegex
