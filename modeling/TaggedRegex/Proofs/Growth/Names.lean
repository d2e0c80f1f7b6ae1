import Mathlib.Data.Finset.Card
import Mathlib.Data.Finset.Dedup
import TaggedRegex.Proofs.Automaton.Tagging

set_option autoImplicit false

/-!
What one step of all threads costs. A state is entered once and takes one new name at most, so the
names that are handed out are paid for by the states that are still unvisited.
-/

namespace TaggedRegex

variable {automaton : Automaton}

namespace Automaton

/-- The initial state and the ends of all edges. -/
def occurring (automaton : Automaton) : Finset StateId :=
  (automaton.initial :: automaton.rows.flatMap fun row =>
    row.edges.flatMap fun edge => [row.source, edge.target]).toFinset

theorem initial_mem_occurring (automaton : Automaton) : automaton.initial ∈ automaton.occurring :=
  List.mem_toFinset.2 (List.mem_cons_self ..)

theorem mem_occurring_of_mem_targets {state : StateId} (member : state ∈ automaton.targets) :
    state ∈ automaton.occurring := by
  obtain ⟨row, rowMember, inRow⟩ := List.mem_flatMap.1 member
  obtain ⟨edge, edgeMember, rfl⟩ := List.mem_map.1 inRow
  apply List.mem_toFinset.2
  apply List.mem_cons_of_mem
  exact List.mem_flatMap.2 ⟨row, rowMember, List.mem_flatMap.2 ⟨edge, edgeMember, by simp⟩⟩

end Automaton

/-- A configuration as a step leaves it: at least one thread, and all of them on live states that
occur in the automaton. -/
structure Configuration.Occurs (automaton : Automaton) (configuration : Configuration) : Prop where
  nonempty : configuration.key ≠ []
  live : ∀ state ∈ configuration.key, automaton.isLive state = true
  occurring : ∀ state ∈ configuration.key, state ∈ automaton.occurring

theorem Configuration.mem_key_ofThreads (threads : List Thread) (state : StateId) :
    state ∈ (ofThreads threads).key ↔ state ∈ threads.map Thread.state := by
  suffices placed : ∀ start : List Thread,
      state ∈ (threads.foldl (fun placed thread => thread.putInto placed) start).map Thread.state ↔
        state ∈ start.map Thread.state ∨ state ∈ threads.map Thread.state by
    simpa [key, ofThreads] using placed []
  induction threads with
  | nil => simp
  | cons thread rest ih =>
    intro start
    rw [List.foldl_cons, ih, Thread.map_state_putInto]
    split <;> grind

theorem Configuration.occurs_ofThreads {threads : List Thread} (nonempty : threads ≠ [])
    (each : ∀ thread ∈ threads, automaton.isLive thread.state = true ∧
      thread.state ∈ automaton.occurring) : (ofThreads threads).Occurs automaton := by
  have states : ∀ state ∈ (ofThreads threads).key,
      automaton.isLive state = true ∧ state ∈ automaton.occurring := by
    intro state member
    rw [mem_key_ofThreads] at member
    obtain ⟨thread, threadMember, rfl⟩ := List.mem_map.1 member
    exact each thread threadMember
  refine ⟨?_, fun state member => (states state member).1,
    fun state member => (states state member).2⟩
  obtain ⟨thread, member⟩ := List.exists_mem_of_ne_nil threads nonempty
  apply List.ne_nil_of_mem
  exact (mem_key_ofThreads _ _).2 (List.mem_map_of_mem member)

theorem Arrival.cost_of_crossTag {supply later : Supply} {arrival : Arrival} {thread : Thread}
    {instructions : List Instruction}
    (crossed : arrival.crossTag automaton supply = .ok (thread, instructions, later)) :
    thread.state = arrival.thread.state ∧ later.issued ≤ supply.issued + 1 := by
  unfold crossTag at crossed
  split at crossed
  · obtain ⟨rfl, -, rfl⟩ : arrival.thread = thread ∧ [] = instructions ∧ supply = later := by
      simpa using crossed
    exact ⟨rfl, Nat.le_succ _⟩
  · split at crossed
    · cases crossed
    · split at crossed
      · cases crossed
      · split at crossed
        · cases crossed
        · rename_i fresh next issued
          obtain ⟨-, -, rfl⟩ := (Supply.freshHistory_eq_ok_iff _ _ _).1 issued
          cases crossed
          exact ⟨rfl, Nat.le_refl _⟩

namespace Closure

theorem toFinset_withoutState (entered : StateId) (states : List StateId) :
    (withoutState entered states).toFinset = states.toFinset.erase entered := by
  ext state
  simp [withoutState, and_comm]

/-- Some work on a closure has cost no more names than states have been entered, and all threads it
has added are on live states that were unvisited. -/
structure Spends (automaton : Automaton) (before after : Closure) : Prop where
  names : after.supply.issued + after.unvisited.toFinset.card ≤
    before.supply.issued + before.unvisited.toFinset.card
  unvisited : ∀ state ∈ after.unvisited, state ∈ before.unvisited
  threads : ∀ thread ∈ after.threads, thread ∈ before.threads ∨
    automaton.isLive thread.state = true ∧ thread.state ∈ before.unvisited

theorem Spends.refl (closure : Closure) : Spends automaton closure closure :=
  ⟨Nat.le_refl _, fun _ member => member, fun _ member => Or.inl member⟩

theorem Spends.trans {first second third : Closure} (early : Spends automaton first second)
    (late : Spends automaton second third) : Spends automaton first third := by
  refine ⟨Nat.le_trans late.names early.names,
    fun state member => early.unvisited state (late.unvisited state member), ?_⟩
  intro thread member
  rcases late.threads thread member with old | ⟨live, unvisited⟩
  · exact early.threads thread old
  · exact Or.inr ⟨live, early.unvisited _ unvisited⟩

/-- Entering a state pays for the name that the thread may take. -/
theorem spends_enter {closure : Closure} {arrival : Arrival} {thread : Thread}
    {instructions : List Instruction} {supply : Supply}
    (member : arrival.thread.state ∈ closure.unvisited)
    (crossed : arrival.crossTag automaton closure.supply = .ok (thread, instructions, supply)) :
    Spends automaton closure
      { unvisited := withoutState arrival.thread.state closure.unvisited
        threads := if automaton.isLive thread.state then closure.threads ++ [thread]
          else closure.threads
        instructions := closure.instructions ++ instructions
        supply := supply } := by
  obtain ⟨state, cost⟩ := Arrival.cost_of_crossTag crossed
  refine ⟨?_, fun other otherMember => List.mem_of_mem_filter otherMember, ?_⟩
  · have fewer := Finset.card_erase_add_one (List.mem_toFinset.2 member)
    rw [← toFinset_withoutState] at fewer
    dsimp only
    omega
  · intro other otherMember
    dsimp only at otherMember
    split at otherMember
    · rename_i live
      rcases List.mem_append.1 otherMember with old | new
      · exact Or.inl old
      · rw [List.mem_singleton.1 new, state]
        exact Or.inr ⟨state ▸ live, member⟩
    · exact Or.inl otherMember

theorem explore_spends (step : Step) {normal low : List Arrival} {closure after : Closure}
    (success : explore automaton step normal low closure = .ok after) :
    Spends automaton closure after := by
  fun_induction explore automaton step normal low closure with
  | case1 normal low closure found =>
    rw [← Except.ok.inj success]
    exact Spends.refl closure
  | case2 => cases success
  | case3 normal low closure arrival normal' low' found member thread added supply crossed edges
      ih =>
    exact (spends_enter member crossed).trans (ih success)
  | case4 normal low closure arrival normal' low' found visited ih => exact ih success

theorem consume_spends (step : Step) {thread : Thread} {closure after : Closure}
    (success : consume automaton step closure thread = .ok after) :
    Spends automaton closure after := by
  cases step <;> exact explore_spends _ success

theorem foldlM_consume_spends (step : Step) (threads : List Thread) {closure after : Closure}
    (success : threads.foldlM (consume automaton step) closure = .ok after) :
    Spends automaton closure after := by
  induction threads generalizing closure with
  | nil =>
    obtain rfl : closure = after := Except.ok.inj success
    exact Spends.refl closure
  | cons thread rest ih =>
    rw [List.foldlM_cons] at success
    obtain ⟨middle, consumed, onwards⟩ := Fault.of_bind_eq_ok success
    exact (consume_spends step consumed).trans (ih onwards)

/-- All threads that a step leads to are on states that its closure has entered. -/
theorem exists_of_advance {source : Configuration} {step : Step} {supply later : Supply}
    {reached : Option (Configuration × List Instruction)}
    (success : advance automaton source step supply = .ok (reached, later)) :
    ∃ after, Spends automaton ⟨source.key ++ automaton.targets, [], [], supply⟩ after ∧
      later = after.supply ∧
      reached = if after.threads.isEmpty then none
        else some (.ofThreads after.threads, after.instructions) := by
  unfold advance at success
  cases step with
  | start =>
    obtain ⟨after, explored, result⟩ := Fault.of_map_eq_ok success
    obtain ⟨rfl, rfl⟩ := Prod.mk.inj result
    exact ⟨after, explore_spends .start explored, rfl, rfl⟩
  | char c =>
    obtain ⟨after, explored, result⟩ := Fault.of_map_eq_ok success
    obtain ⟨rfl, rfl⟩ := Prod.mk.inj result
    exact ⟨after, foldlM_consume_spends (.char c) _ explored, rfl, rfl⟩
  | finish =>
    obtain ⟨after, explored, result⟩ := Fault.of_map_eq_ok success
    obtain ⟨rfl, rfl⟩ := Prod.mk.inj result
    exact ⟨after, foldlM_consume_spends .finish _ explored, rfl, rfl⟩

/-- A step from states that occur in the automaton takes no more names than states occur, and
leads to such states. -/
theorem advance_spends {source : Configuration} {step : Step} {supply later : Supply}
    {reached : Option (Configuration × List Instruction)}
    (success : advance automaton source step supply = .ok (reached, later))
    (occurring : ∀ state ∈ source.key, state ∈ automaton.occurring) :
    later.issued ≤ supply.issued + automaton.occurring.card ∧
      ∀ configuration instructions, reached = some (configuration, instructions) →
        configuration.Occurs automaton := by
  obtain ⟨after, spends, rfl, rfl⟩ := exists_of_advance success
  have known : ∀ state ∈ source.key ++ automaton.targets, state ∈ automaton.occurring := by
    intro state member
    rcases List.mem_append.1 member with own | target
    · exact occurring state own
    · exact Automaton.mem_occurring_of_mem_targets target
  refine ⟨?_, ?_⟩
  · have few : (source.key ++ automaton.targets).toFinset.card ≤ automaton.occurring.card :=
      Finset.card_le_card fun state member => known state (List.mem_toFinset.1 member)
    have names := spends.names
    dsimp only at names
    omega
  · intro configuration instructions some
    split at some
    · cases some
    · rename_i nonempty
      obtain ⟨rfl, -⟩ := Prod.mk.inj (Option.some.inj some)
      apply Configuration.occurs_ofThreads (by simpa using nonempty)
      intro thread member
      rcases spends.threads thread member with old | ⟨live, unvisited⟩
      · exact absurd old List.not_mem_nil
      · exact ⟨live, known _ unvisited⟩

end Closure

end TaggedRegex
