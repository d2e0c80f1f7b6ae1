import TaggedRegex.Proofs.Tour.Names
import TaggedRegex.Proofs.Guarded.Reachability

set_option autoImplicit false

/-!
A step does not look at names. When the histories of a configuration are renamed one-to-one, and the
step takes its new names from another supply, the same states are visited in the same order, and all
that is done is the same under the renaming, in which each new name goes to the one that the other
supply hands out in its place.
-/

namespace TaggedRegex

/-! ### Renaming -/

def Thread.rename (image : HistoryId → HistoryId) (thread : Thread) : Thread :=
  ⟨thread.state, thread.histories.map image⟩

def Configuration.rename (image : HistoryId → HistoryId) (configuration : Configuration) :
    Configuration :=
  ⟨configuration.threads.map (Thread.rename image)⟩

def Instruction.rename (image : HistoryId → HistoryId) : Instruction → Instruction
  | .set history offset => .set (image history) offset
  | .copy target source => .copy (image target) (image source)
  | .commitStart history => .commitStart (image history)
  | .commitEnd history => .commitEnd (image history)
  | .reset history => .reset (image history)

/-- Goes on where the renaming ends: a name that `supply` has not handed out yet becomes the one
that `other` hands out in its place. -/
def Supply.extend (supply other : Supply) (image : HistoryId → HistoryId) (id : HistoryId) :
    HistoryId :=
  if id.index < supply.issued then image id else ⟨other.issued + (id.index - supply.issued)⟩

@[simp] theorem Configuration.key_rename (image : HistoryId → HistoryId)
    (configuration : Configuration) : (configuration.rename image).key = configuration.key := by
  rw [key, Configuration.rename, List.map_map]
  rfl

theorem Configuration.rename_congr {configuration : Configuration} {f g : HistoryId → HistoryId}
    (same : ∀ id ∈ configuration.histories, f id = g id) :
    configuration.rename f = configuration.rename g := by
  refine congrArg Configuration.mk (List.map_congr_left fun thread member => ?_)
  refine congrArg (Thread.mk thread.state) (List.map_congr_left fun id inside => ?_)
  exact same id (List.mem_flatMap.2 ⟨thread, member, inside⟩)

theorem Tag.commit_rename (tag : Tag) (image : HistoryId → HistoryId) (id : HistoryId) :
    (tag.commit id).rename image = tag.commit (image id) := by
  unfold Tag.commit
  cases tag.boundary <;> rfl

namespace Supply

variable {supply other : Supply} {image : HistoryId → HistoryId}

theorem extend_of_lt {id : HistoryId} (below : id.index < supply.issued) :
    supply.extend other image id = image id :=
  if_pos below

/-- The names that are handed out one after the other go to each other. -/
theorem extend_fresh (count : Nat) :
    supply.extend other image ⟨supply.issued + count⟩ = ⟨other.issued + count⟩ := by
  rw [extend, if_neg (Nat.not_lt.2 (Nat.le_add_right _ _)), Nat.add_sub_cancel_left]

theorem le_extend {id : HistoryId} (fresh : supply.issued ≤ id.index) :
    other.issued ≤ (supply.extend other image id).index := by
  rw [extend, if_neg (Nat.not_lt.2 fresh)]
  exact Nat.le_add_right _ _

/-- The extended renaming is one-to-one, since the other supply hands out no image of an old
name. -/
theorem injOn_extend {old : Set HistoryId} (injective : Set.InjOn image old)
    (below : ∀ id ∈ old, id.index < supply.issued)
    (belowOther : ∀ id ∈ old, (image id).index < other.issued) :
    Set.InjOn (supply.extend other image) {id | id ∈ old ∨ supply.issued ≤ id.index} := by
  have apart : ∀ first second, first ∈ old → supply.issued ≤ second.index →
      supply.extend other image first ≠ supply.extend other image second := by
    intro first second early late same
    have reached : other.issued ≤ (supply.extend other image second).index := le_extend late
    rw [← same, extend_of_lt (below first early)] at reached
    exact Nat.not_lt.2 reached (belowOther first early)
  rintro first (early | late) second (early' | late') same
  · rw [extend_of_lt (below first early), extend_of_lt (below second early')] at same
    exact injective early early' same
  · exact absurd same (apart first second early late')
  · exact absurd same.symm (apart second first early' late)
  · rw [extend, extend, if_neg (Nat.not_lt.2 late), if_neg (Nat.not_lt.2 late')] at same
    obtain ⟨first⟩ := first
    obtain ⟨second⟩ := second
    simp only [HistoryId.mk.injEq] at same late late' ⊢
    omega

end Supply

/-! ### The same visits -/

namespace Visit

variable {automaton : Automaton} {image : HistoryId → HistoryId} {name other : StateId → HistoryId}

/-- The visit by the same path from the renamed thread. -/
def rename (image : HistoryId → HistoryId) (visit : Visit) : Visit :=
  ⟨visit.origin.rename image, visit.path⟩

theorem histories_rename (agrees : ∀ state, image (name state) = other state) (visit : Visit) :
    (visit.rename image).histories automaton other =
      (visit.histories automaton name).map image := by
  obtain ⟨origin, path⟩ := visit
  show path.foldl (crossEdge automaton other) (origin.histories.map image) =
    (path.foldl (crossEdge automaton name) origin.histories).map image
  generalize origin.histories = histories
  induction path generalizing histories with
  | nil => rfl
  | cons edge rest ih =>
    have crossed : crossEdge automaton other (histories.map image) edge =
        (crossEdge automaton name histories edge).map image := by
      rw [crossEdge, crossEdge]
      split
      · rfl
      · rw [List.map_set, agrees]
    rw [List.foldl_cons, List.foldl_cons, crossed, ih]

theorem thread_rename (agrees : ∀ state, image (name state) = other state) (visit : Visit) :
    (visit.rename image).thread automaton other = (visit.thread automaton name).rename image :=
  congrArg (Thread.mk visit.state) (histories_rename agrees visit)

theorem instructions_rename (agrees : ∀ state, image (name state) = other state)
    (visit : Visit) :
    (visit.rename image).instructions automaton other =
      (visit.instructions automaton name).map (Instruction.rename image) := by
  have found : (visit.rename image).before.histories automaton other =
      (visit.before.histories automaton name).map image := histories_rename agrees visit.before
  have arrives : (visit.rename image).tag? = visit.tag? := rfl
  have stands : (visit.rename image).state = visit.state := rfl
  rw [instructions, instructions, found, arrives, stands]
  cases visit.tag? with
  | none => rfl
  | some tag =>
    dsimp only
    cases automaton.slot? tag with
    | none => rfl
    | some slot =>
      rw [Option.bind_some, Option.bind_some, List.getElem?_map]
      cases (visit.before.histories automaton name)[slot]? with
      | none => rfl
      | some old =>
        simp only [Option.map_some, List.map_cons, List.map_nil, Tag.commit_rename, agrees]
        rw [Instruction.rename, Instruction.rename, agrees]

theorem map_thread_rename (agrees : ∀ state, image (name state) = other state)
    (visits : List Visit) :
    (visits.map (Visit.rename image)).map (thread automaton other) =
      (visits.map (thread automaton name)).map (Thread.rename image) := by
  rw [List.map_map, List.map_map]
  exact List.map_congr_left fun visit _ => thread_rename agrees visit

theorem flatMap_instructions_rename (agrees : ∀ state, image (name state) = other state)
    (visits : List Visit) :
    (visits.map (Visit.rename image)).flatMap (instructions automaton other) =
      (visits.flatMap (instructions automaton name)).map (Instruction.rename image) := by
  rw [List.flatMap_map, List.map_flatMap]
  exact congrArg visits.flatMap (funext fun visit => instructions_rename agrees visit)

/-- Names are handed out at the same visits. -/
theorem extend_naming (supply later : Supply) (image other : HistoryId → HistoryId)
    (visits : List Visit) (state : StateId) :
    supply.extend later image (naming supply visits state) =
      naming later (visits.map (Visit.rename other)) state := by
  rw [naming, naming, Supply.extend_fresh, List.takeWhile_map, List.countP_map]
  rfl

theorem maps_rename (free : StateId → List Edge) (image : HistoryId → HistoryId) :
    Terrain.Maps (terrain free) (terrain free) (Visit.rename image) := by
  refine ⟨fun visit => rfl, fun visit priority => ?_⟩
  show followWith _ _ _ = (followWith _ _ _).map _
  rw [followWith, followWith, List.map_map]
  rfl

end Visit

theorem Thread.departures_rename (automaton : Automaton) (step : Step) (thread : Thread)
    (image : HistoryId → HistoryId) :
    (thread.rename image).departures automaton step =
      ((thread.departures automaton step).1.map (Visit.rename image),
        (thread.departures automaton step).2.map (Visit.rename image)) := by
  cases step with
  | start => rfl
  | char c =>
    rw [departures, departures, List.map_map]
    rfl
  | finish =>
    simp only [departures, List.map_append, Visit.followWith, List.map_map]
    congr 2
    split <;> rename_i accepts
    · rw [if_pos (show thread.state = automaton.accept from accepts)]
      rfl
    · rw [if_neg (show thread.state ≠ automaton.accept from accepts)]
      rfl

theorem Configuration.visits_rename (automaton : Automaton) (step : Step) (source : Configuration)
    (image : HistoryId → HistoryId) :
    (source.rename image).visits automaton step =
      (source.visits automaton step).map (Visit.rename image) := by
  have begin : (source.rename image).departures automaton step =
      (source.departures automaton step).map fun both =>
        (both.1.map (Visit.rename image), both.2.map (Visit.rename image)) := by
    cases step with
    | start =>
      simp only [departures, Configuration.rename, List.map_map, List.map_cons, List.map_nil]
      rfl
    | char c =>
      simp only [departures, Configuration.rename, List.map_map]
      exact List.map_congr_left fun thread _ => thread.departures_rename automaton (.char c) image
    | finish =>
      simp only [departures, Configuration.rename, List.map_map]
      exact List.map_congr_left fun thread _ => thread.departures_rename automaton .finish image
  rw [visits, begin, key_rename]
  exact (Visit.maps_rename _ image).tours _ _

/-! ### The same step -/

/-- A step commutes with renaming. Let a renaming be one-to-one on the histories of a configuration,
let each of two supplies have handed out all names of its side, and let neither of them run out.
Then the steps from the configuration and from the renamed one take equally many names; one finds a
thread when the other does; the states are the same, and the histories and instructions are the same
under the renaming, extended by the new names in the order in which they are handed out. The
extended renaming is one-to-one on all names that occur. -/
theorem Closure.advance_commutes_with_renaming {builder : Builder} {automaton : Automaton}
    (built : builder.build = .ok automaton) (source : Configuration)
    (lengths : ∀ thread ∈ source.threads, thread.histories.length = automaton.tags.length)
    (step : Step) (supply other : Supply) (image : HistoryId → HistoryId)
    (injective : Set.InjOn image {id | id ∈ source.histories})
    (covers : ∀ id ∈ source.histories, id.index < supply.issued)
    (coversOther : ∀ id ∈ source.histories, (image id).index < other.issued)
    (enough : advance automaton source step supply ≠ .error .historiesExhausted)
    (enoughOther :
      advance automaton (source.rename image) step other ≠ .error .historiesExhausted) :
    let extended := supply.extend other image
    ∃ outcome count,
      advance automaton source step supply = .ok (outcome, ⟨supply.issued + count⟩) ∧
      advance automaton (source.rename image) step other =
        .ok (outcome.map fun (target, instructions) =>
          (target.rename extended, instructions.map (Instruction.rename extended)),
          ⟨other.issued + count⟩) ∧
      (∀ id ∈ source.histories, extended id = image id) ∧
      (∀ k, extended ⟨supply.issued + k⟩ = ⟨other.issued + k⟩) ∧
      Set.InjOn extended {id | id ∈ source.histories ∨ supply.issued ≤ id.index} ∧
      ∀ target instructions, outcome = some (target, instructions) →
        (target.rename extended).key = target.key ∧
        (∀ id ∈ target.histories, source.Known supply ⟨supply.issued + count⟩ id) ∧
        ∀ instruction ∈ instructions, ∀ id ∈ instruction.mentioned,
          source.Known supply ⟨supply.issued + count⟩ id := by
  intro extended
  have tagged := (Builder.build_eq_ok built).2.2.2.2.2
  have old : ∀ id ∈ source.histories, extended id = image id :=
    fun id member => Supply.extend_of_lt (covers id member)
  -- The renamed configuration is the same with the extended renaming, which also knows new names.
  have renamed : source.rename image = source.rename extended :=
    (Configuration.rename_congr old).symm
  rw [renamed] at enoughOther ⊢
  have lengthsOther : ∀ thread ∈ (source.rename extended).threads,
      thread.histories.length = automaton.tags.length := by
    intro thread member
    obtain ⟨original, originalMember, rfl⟩ := List.mem_map.1 member
    exact (List.length_map _).trans (lengths original originalMember)
  have success := (advance_eq_visits tagged lengths step supply).resolve_left enough
  have successOther := (advance_eq_visits tagged lengthsOther step other).resolve_left enoughOther
  rw [Configuration.visits_rename] at successOther
  have emits : ∀ target instructions outcome later, advance automaton source step supply =
      .ok (outcome, later) → outcome = some (target, instructions) →
      Emits source supply later target instructions := by
    rintro target instructions outcome later success rfl
    exact emits_of_advance tagged lengths success
  generalize source.visits automaton step = visits at success successOther
  have agrees : ∀ state, extended (Visit.naming supply visits state) =
      Visit.naming other (visits.map (Visit.rename extended)) state :=
    Visit.extend_naming supply other image extended visits
  have crossings : (visits.map (Visit.rename extended)).countP Visit.crosses =
      visits.countP Visit.crosses := List.countP_map ..
  refine ⟨_, visits.countP Visit.crosses, success, ?_, old, Supply.extend_fresh,
    Supply.injOn_extend injective covers coversOther, ?_⟩
  · rw [successOther, crossings, Visit.flatMap_instructions_rename agrees, List.filter_map,
      Visit.map_thread_rename agrees, List.isEmpty_map]
    show Except.ok (if (visits.filter fun visit => automaton.isLive visit.state).isEmpty = true
      then _ else _, _) = _
    split <;> rfl
  · intro target instructions found
    have emitted := emits target instructions _ _ success found
    exact ⟨target.key_rename extended, emitted.histories, emitted.mentioned⟩

/-- Two threads share a history, and the renaming turns the order of the names around. One new name
is taken on either side. -/
theorem Closure.advance_commutes_with_renaming_cyclic :
    advance .cyclic ⟨[⟨⟨0⟩, [⟨0⟩, ⟨1⟩]⟩, ⟨⟨1⟩, [⟨1⟩, ⟨1⟩]⟩]⟩ .finish ⟨2⟩ =
        .ok (some (⟨[⟨⟨2⟩, [⟨1⟩, ⟨2⟩]⟩, ⟨⟨1⟩, [⟨1⟩, ⟨2⟩]⟩]⟩,
          [.copy ⟨2⟩ ⟨1⟩, .set ⟨2⟩ 0, .commitEnd ⟨2⟩]), ⟨2 + 1⟩) ∧
      advance .cyclic ⟨[⟨⟨0⟩, [⟨4⟩, ⟨3⟩]⟩, ⟨⟨1⟩, [⟨3⟩, ⟨3⟩]⟩]⟩ .finish ⟨7⟩ =
        .ok (some (⟨[⟨⟨2⟩, [⟨3⟩, ⟨7⟩]⟩, ⟨⟨1⟩, [⟨3⟩, ⟨7⟩]⟩]⟩,
          [.copy ⟨7⟩ ⟨3⟩, .set ⟨7⟩ 0, .commitEnd ⟨7⟩]), ⟨7 + 1⟩) := by
  obtain ⟨builder, -, built⟩ := Builder.exists_cyclic
  have injective : ∀ first ∈ [0, 1, 1, 1].map HistoryId.mk,
      ∀ second ∈ [0, 1, 1, 1].map HistoryId.mk,
        (⟨4 - first.index⟩ : HistoryId) = ⟨4 - second.index⟩ → first = second := by decide
  have found : advance .cyclic ⟨[⟨⟨0⟩, [⟨0⟩, ⟨1⟩]⟩, ⟨⟨1⟩, [⟨1⟩, ⟨1⟩]⟩]⟩ .finish ⟨2⟩ =
      .ok (some (⟨[⟨⟨2⟩, [⟨1⟩, ⟨2⟩]⟩, ⟨⟨1⟩, [⟨1⟩, ⟨2⟩]⟩]⟩,
        [.copy ⟨2⟩ ⟨1⟩, .set ⟨2⟩ 0, .commitEnd ⟨2⟩]), ⟨2 + 1⟩) := by cbv
  obtain ⟨outcome, count, success, successOther, -⟩ := advance_commutes_with_renaming built
    ⟨[⟨⟨0⟩, [⟨0⟩, ⟨1⟩]⟩, ⟨⟨1⟩, [⟨1⟩, ⟨1⟩]⟩]⟩ (by decide) .finish ⟨2⟩ ⟨7⟩ (fun id => ⟨4 - id.index⟩)
    (fun first occurs second occurs' => injective first occurs second occurs') (by decide)
    (by decide) (Fault.ne_error_of_isOk (by rw [found]; rfl) _)
    (Fault.ne_error_of_isOk (by cbv) _)
  obtain ⟨rfl, supplies⟩ := Prod.mk.inj (Except.ok.inj (found.symm.trans success))
  obtain rfl : 1 = count := Nat.add_left_cancel (Supply.mk.inj supplies)
  exact ⟨found, successOther⟩

end TaggedRegex
