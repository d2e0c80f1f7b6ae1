import TaggedRegex.Proofs.Automaton.Shape
import TaggedRegex.Proofs.Guarded.WorkLoop
import TaggedRegex.Proofs.Tour.Advance

set_option autoImplicit false

/-!
What a step of all threads reaches, read off the connections of the automaton. The states that the
loop enters are the least set that it does not leave, so they are those that the step reaches.
-/

namespace TaggedRegex

namespace Connection

variable {accept : StateId} {connections : List Connection}

/-- Where a state gets to by consuming what the step consumes. At the end of the input the accepting
state may stay where it is. -/
inductive Departs (accept : StateId) (connections : List Connection) :
    Step → StateId → StateId → Prop
  | start (state : StateId) : Departs accept connections .start state state
  | read {state : StateId} {c : Char} {range : CharRange} {edge : Edge} :
      ⟨state, .chars range, edge⟩ ∈ connections → c ∈ range →
      Departs accept connections (.char c) state edge.target
  | ends {state : StateId} {edge : Edge} : ⟨state, .atEnd, edge⟩ ∈ connections →
      Departs accept connections .finish state edge.target
  | stay : Departs accept connections .finish accept accept

/-- What the step reaches from the threads: where they depart to, and from there on over epsilon
connections, at the end of the input also over those that wait for it. -/
inductive Reaches (accept : StateId) (connections : List Connection) (source : Configuration)
    (step : Step) : StateId → Prop
  | departs {thread : Thread} {state : StateId} : thread ∈ source.threads →
      Departs accept connections step thread.state state →
      Reaches accept connections source step state
  | epsilon {state : StateId} {edge : Edge} : Reaches accept connections source step state →
      ⟨state, .epsilon, edge⟩ ∈ connections → Reaches accept connections source step edge.target
  | atEnd {state : StateId} {edge : Edge} : Reaches accept connections source step state →
      step = .finish → ⟨state, .atEnd, edge⟩ ∈ connections →
      Reaches accept connections source step edge.target

/-- A state is live if it accepts, or has a connection that reads or waits for the end. -/
def Live (accept : StateId) (connections : List Connection) (state : StateId) : Prop :=
  state = accept ∨ ∃ connection ∈ connections,
    connection.source = state ∧ connection.label ≠ .epsilon

end Connection

open Connection (Departs Reaches Live)

variable {automaton : Automaton} {connections : List Connection} {source : Configuration}
  {step : Step} {holds : StateId → Prop}

namespace WorkLoop

theorem mem_departures_iff (draws : automaton.Draws connections) {state target : StateId} :
    target ∈ departures automaton step state ↔
      Departs automaton.accept connections step state target := by
  cases step with
  | start =>
    rw [departures, List.mem_singleton]
    constructor
    · rintro rfl
      exact .start target
    · rintro ⟨⟩
      rfl
  | char c =>
    rw [departures, List.mem_map]
    constructor
    · rintro ⟨edge, member, rfl⟩
      obtain ⟨range, made, inside⟩ := draws.mem_onChar.1 member
      exact .read made inside
    · intro departs
      cases departs with
      | read made inside => exact ⟨_, draws.mem_onChar.2 ⟨_, made, inside⟩, rfl⟩
  | finish =>
    rw [departures, List.mem_append, List.mem_map]
    constructor
    · rintro (staying | ⟨edge, member, rfl⟩)
      · split at staying
        · rename_i accepts
          rw [List.mem_singleton.1 staying, accepts]
          exact .stay
        · cases staying
      · exact .ends (draws.mem_edgesAt.1 member)
    · intro departs
      cases departs with
      | ends made => exact Or.inr ⟨_, draws.mem_edgesAt.2 made, rfl⟩
      | stay =>
        left
        rw [if_pos rfl]
        exact List.mem_singleton.2 rfl

theorem mem_freeEdges_iff (draws : automaton.Draws connections) {state : StateId} {edge : Edge} :
    edge ∈ Closure.freeEdges automaton step state ↔
      ⟨state, .epsilon, edge⟩ ∈ connections ∨
        step = .finish ∧ ⟨state, .atEnd, edge⟩ ∈ connections := by
  rw [← draws.mem_edgesAt, ← draws.mem_edgesAt]
  cases step with
  | start => simp [Closure.freeEdges, Automaton.onEpsilon]
  | char c => simp [Closure.freeEdges, Automaton.onEpsilon]
  | finish => simp [Closure.freeEdges, Automaton.onEpsilon, Automaton.onEnd]

/-- The loop does not leave what the step reaches. -/
theorem closed_reaches (draws : automaton.Draws connections) (source : Configuration)
    (step : Step) :
    Closed automaton source step (Reaches automaton.accept connections source step) := by
  refine ⟨fun thread member target departing => ?_, fun state reached edge member => ?_⟩
  · exact .departs member ((mem_departures_iff draws).1 departing)
  · rcases (mem_freeEdges_iff draws).1 member with made | ⟨finish, made⟩
    · exact reached.epsilon made
    · exact reached.atEnd finish made

/-- What the loop does not leave has everything in it that the step reaches. -/
theorem Closed.of_reaches (closed : Closed automaton source step holds)
    (draws : automaton.Draws connections) {state : StateId}
    (reached : Reaches automaton.accept connections source step state) : holds state := by
  induction reached with
  | departs member departs =>
    exact closed.departs _ member _ ((mem_departures_iff draws).2 departs)
  | epsilon _ made ih =>
    exact closed.follows _ ih _ ((mem_freeEdges_iff draws).2 (Or.inl made))
  | atEnd _ finish made ih =>
    exact closed.follows _ ih _ ((mem_freeEdges_iff draws).2 (Or.inr ⟨finish, made⟩))

variable {loop next final : WorkLoop}

/-! ### Nothing is forgotten -/

/-- The loop has come upon the state. -/
def Knows (loop : WorkLoop) (state : StateId) : Prop :=
  state ∈ loop.waiting ∨ state ∈ loop.entered

theorem Knows.turns {state : StateId} (knows : loop.Knows state)
    (turns : Turns automaton step loop next) : next.Knows state := by
  cases turns with
  | skip found visited =>
    rcases knows with waits | entered
    · rw [waiting_of_nextOf found] at waits
      rcases List.mem_cons.1 waits with rfl | rest
      · exact Or.inr visited
      · exact Or.inl rest
    · exact Or.inr entered
  | @enter arrival normal low thread instructions supply found unvisited crossed =>
    rcases knows with waits | entered
    · rw [waiting_of_nextOf found, ← Arrival.state_of_crossTag crossed] at waits
      rcases List.mem_cons.1 waits with rfl | rest
      · exact Or.inr (List.mem_append_right _ (List.mem_singleton.2 rfl))
      · exact Or.inl ((waiting_enter thread ..).mem_iff.2 (List.mem_append_right _ rest))
    · exact Or.inr (List.mem_append_left _ entered)
  | feed lists feeds =>
    rcases knows with waits | entered
    · rw [waiting, lists] at waits
      cases waits
    · exact Or.inr entered

/-- The loop has come upon everything to which the threads that have taken the step and the states
that have been entered lead. -/
structure Complete (automaton : Automaton) (source : Configuration) (step : Step)
    (loop : WorkLoop) : Prop where
  departed : ∀ thread ∈ source.threads, thread ∈ loop.lists.hungry ∨
    ∀ target ∈ departures automaton step thread.state, loop.Knows target
  followed : ∀ state ∈ loop.entered, ∀ edge ∈ Closure.freeEdges automaton step state,
    loop.Knows edge.target

theorem complete_begin (automaton : Automaton) (source : Configuration) (step : Step)
    (supply : Supply) : (begin source step supply).Complete automaton source step := by
  refine ⟨fun thread member => ?_, fun state entered => absurd entered List.not_mem_nil⟩
  cases step with
  | start =>
    refine Or.inr fun target departing => Or.inl ?_
    rw [List.mem_singleton.1 departing]
    exact List.mem_map.2 ⟨⟨thread, none⟩, by simpa [begin] using member, rfl⟩
  | char c => exact Or.inl member
  | finish => exact Or.inl member

theorem Complete.turns (complete : loop.Complete automaton source step)
    (turns : Turns automaton step loop next) : next.Complete automaton source step := by
  have knows : ∀ target, loop.Knows target → next.Knows target :=
    fun target known => known.turns turns
  have departed : ∀ thread ∈ source.threads, thread ∈ loop.lists.hungry ∨
      ∀ target ∈ departures automaton step thread.state, next.Knows target :=
    fun thread member => (complete.departed thread member).imp_right
      fun all target departing => knows target (all target departing)
  have followed : ∀ state ∈ loop.entered, ∀ edge ∈ Closure.freeEdges automaton step state,
      next.Knows edge.target :=
    fun state entered edge member => knows _ (complete.followed state entered edge member)
  cases turns with
  | skip found visited => exact ⟨departed, followed⟩
  | @enter arrival normal low thread instructions supply found unvisited crossed =>
    refine ⟨departed, fun state entered edge member => ?_⟩
    -- The edges of the state that is entered now are put on the lists in this very turn.
    rcases List.mem_append.1 entered with old | new
    · exact followed state old edge member
    · rw [List.mem_singleton.1 new] at member
      exact Or.inl ((waiting_enter thread ..).mem_iff.2
        (List.mem_append_left _ (List.mem_map_of_mem member)))
  | @feed fed rest normal low lists feeds =>
    refine ⟨fun thread member => ?_, followed⟩
    rcases departed thread member with hungry | gone
    · rw [lists] at hungry
      rcases List.mem_cons.1 hungry with rfl | waits
      · exact Or.inr fun target departing => Or.inl ((departures_of_fed feeds).mem_iff.2 departing)
      · exact Or.inl waits
    · exact Or.inr gone

/-- At its end the loop does not leave what it has entered. -/
theorem Complete.closed (complete : loop.Complete automaton source step)
    (ended : loop.lists = .empty) : Closed automaton source step (· ∈ loop.entered) := by
  have entered : ∀ state, loop.Knows state → state ∈ loop.entered := by
    intro state knows
    refine knows.resolve_left fun waits => ?_
    rw [waiting, ended] at waits
    cases waits
  refine ⟨fun thread member target departing => ?_, fun state inside edge member =>
    entered _ (complete.followed state inside edge member)⟩
  rcases complete.departed thread member with hungry | gone
  · rw [ended] at hungry
    cases hungry
  · exact entered target (gone target departing)

/-! ### What has been entered is counted -/

/-- No state is entered twice, the threads that are kept are those on live states, and there is a
state for every name that has been handed out. -/
structure Tally (automaton : Automaton) (supply : Supply) (loop : WorkLoop) : Prop where
  nodup : loop.entered.Nodup
  threads : loop.threads.map Thread.state = loop.entered.filter automaton.isLive
  issued : loop.supply.issued ≤ supply.issued + loop.entered.length

theorem tally_begin (automaton : Automaton) (source : Configuration) (step : Step)
    (supply : Supply) : (begin source step supply).Tally automaton supply :=
  ⟨List.nodup_nil, rfl, Nat.le_refl _⟩

theorem Tally.turns {supply : Supply} (tally : loop.Tally automaton supply)
    (turns : Turns automaton step loop next) : next.Tally automaton supply := by
  cases turns with
  | skip found visited => exact ⟨tally.nodup, tally.threads, tally.issued⟩
  | @enter arrival normal low thread instructions later found unvisited crossed =>
    obtain ⟨state, cost⟩ := Arrival.cost_of_crossTag crossed
    have fresh : thread.state ∉ loop.entered := by
      rw [state]
      exact unvisited
    refine ⟨?_, ?_, ?_⟩
    · exact List.nodup_append.2 ⟨tally.nodup, List.nodup_singleton _, by
        rintro old inside new last rfl
        exact fresh (List.mem_singleton.1 last ▸ inside)⟩
    · by_cases live : automaton.isLive thread.state = true <;>
        simp [enter, live, tally.threads]
    · have issued := tally.issued
      simp only [enter, List.length_append, List.length_singleton]
      omega
  | feed lists feeds => exact ⟨tally.nodup, tally.threads, tally.issued⟩

/-! ### The end of the loop -/

/-- The loop ends when it has entered what the step reaches. -/
theorem mem_entered_iff (draws : automaton.Draws connections) {supply : Supply} {turns : Nat}
    (ran : run automaton step turns (begin source step supply) = .ok final) (state : StateId) :
    state ∈ final.entered ↔ Reaches automaton.accept connections source step state := by
  have closed := closed_reaches draws source step
  have within := (run_preserves (fun _ _ turns within => Within.turns within closed turns) ran
    (within_begin closed supply)).1
  obtain ⟨complete, ended⟩ := run_preserves
    (fun _ _ turns complete => Complete.turns complete turns) ran
    (complete_begin automaton source step supply)
  exact ⟨within.entered state, (complete.closed ended).of_reaches draws⟩

theorem tally_of_run {supply : Supply} {turns : Nat}
    (ran : run automaton step turns (begin source step supply) = .ok final) :
    final.Tally automaton supply :=
  (run_preserves (fun _ _ turns tally => Tally.turns tally turns) ran
    (tally_begin automaton source step supply)).1

theorem outcome_eq_none_iff (loop : WorkLoop) :
    loop.outcome = none ↔ ∀ state, state ∉ loop.threads.map Thread.state := by
  rw [← List.eq_nil_iff_forall_not_mem, List.map_eq_nil_iff, outcome]
  cases loop.threads <;> simp

theorem eq_ofThreads_of_outcome {target : Configuration} {instructions : List Instruction}
    (found : loop.outcome = some (target, instructions)) : target = .ofThreads loop.threads := by
  unfold outcome at found
  split at found
  · cases found
  · exact (Prod.mk.inj (Option.some.inj found)).1.symm

end WorkLoop

/-- A step of an automaton that has been built comes to an end, whatever cycles its connections
make. The loop has then entered what the step reaches, each state once, and handed out no more names
than that; the threads that it has found are on the live ones among these states. -/
theorem Closure.advance_reaches_exactly {builder : Builder} (made : builder.Made connections)
    (built : builder.build = .ok automaton) (source : Configuration)
    (lengths : ∀ thread ∈ source.threads, thread.histories.length = automaton.tags.length)
    (step : Step) (supply : Supply)
    (enough : advance automaton source step supply ≠ .error .historiesExhausted) :
    let reaches := Reaches automaton.accept connections source step
    let live := Live automaton.accept connections
    ∃ loop : WorkLoop,
      (∀ turns, WorkLoop.turnLimit automaton source ≤ turns →
        WorkLoop.run automaton step turns (.begin source step supply) = .ok loop) ∧
      advance automaton source step supply = .ok (loop.outcome, loop.supply) ∧
      loop.entered.Nodup ∧ (∀ state, state ∈ loop.entered ↔ reaches state) ∧
      loop.supply.issued ≤ supply.issued + loop.entered.length ∧
      (loop.outcome = none ↔ ¬ ∃ state, live state ∧ reaches state) ∧
      ∀ target instructions, loop.outcome = some (target, instructions) →
        target.key.Nodup ∧ ∀ state, state ∈ target.key ↔ live state ∧ reaches state := by
  intro reaches live
  have draws := Automaton.draws_of_build made built
  have tagged := (Builder.build_eq_ok built).2.2.2.2.2
  obtain ⟨outcome, later, success⟩ : ∃ outcome later,
      advance automaton source step supply = .ok (outcome, later) := by
    rcases advance_eq_visits tagged lengths step supply with exhausted | success
    · exact absurd exhausted enough
    · exact ⟨_, _, success⟩
  obtain ⟨loop, runs, rfl, rfl⟩ := WorkLoop.run_begin success
  have ran := runs _ (Nat.le_refl _)
  have entered := WorkLoop.mem_entered_iff draws ran
  have tally := WorkLoop.tally_of_run ran
  have kept : ∀ state, state ∈ loop.threads.map Thread.state ↔ live state ∧ reaches state := by
    intro state
    rw [tally.threads, List.mem_filter, draws.isLive_iff, entered, and_comm]
    rfl
  refine ⟨loop, runs, success, tally.nodup, entered, tally.issued, ?_, ?_⟩
  · rw [loop.outcome_eq_none_iff, not_exists]
    exact forall_congr' fun state => not_congr (kept state)
  · intro target instructions found
    rw [WorkLoop.eq_ofThreads_of_outcome found]
    refine ⟨Configuration.nodup_key_ofThreads _, fun state => ?_⟩
    rw [Configuration.mem_key_ofThreads, kept]

/-- Two states on a cycle of epsilon connections, two of them parallel, and two on a cycle of
connections that wait for the end of the input, one of them a loop. -/
def Connection.cycles : List Connection :=
  [⟨⟨0⟩, .epsilon, ⟨1⟩, .normal, none, 0⟩, ⟨⟨0⟩, .epsilon, ⟨1⟩, .low, some ⟨0, .opening⟩, 1⟩,
    ⟨⟨1⟩, .epsilon, ⟨0⟩, .normal, none, 2⟩, ⟨⟨1⟩, .atEnd, ⟨2⟩, .normal, some ⟨0, .closing⟩, 3⟩,
    ⟨⟨2⟩, .atEnd, ⟨1⟩, .low, none, 4⟩, ⟨⟨2⟩, .atEnd, ⟨2⟩, .normal, none, 5⟩]

/-- The automaton with these connections. -/
def Automaton.cyclic : Automaton where
  rows :=
    [⟨⟨0⟩, .epsilon, [⟨⟨1⟩, .normal, none, 0⟩, ⟨⟨1⟩, .low, some ⟨0, .opening⟩, 1⟩]⟩,
      ⟨⟨1⟩, .atEnd, [⟨⟨2⟩, .normal, some ⟨0, .closing⟩, 3⟩]⟩,
      ⟨⟨1⟩, .epsilon, [⟨⟨0⟩, .normal, none, 2⟩]⟩,
      ⟨⟨2⟩, .atEnd, [⟨⟨2⟩, .normal, none, 5⟩, ⟨⟨1⟩, .low, none, 4⟩]⟩]
  initial := ⟨0⟩
  accept := ⟨2⟩
  groups := [.entireMatch]

theorem Builder.exists_cyclic :
    ∃ builder : Builder, builder.Made Connection.cycles ∧ builder.build = .ok .cyclic := by
  have made := Made.empty.connect ⟨0⟩ .epsilon ⟨1⟩ .normal none
    |>.connect ⟨0⟩ .epsilon ⟨1⟩ .low (some ⟨0, .opening⟩) |>.connect ⟨1⟩ .epsilon ⟨0⟩ .normal none
    |>.connect ⟨1⟩ .atEnd ⟨2⟩ .normal (some ⟨0, .closing⟩) |>.connect ⟨2⟩ .atEnd ⟨1⟩ .low none
    |>.connect ⟨2⟩ .atEnd ⟨2⟩ .normal none
  exact ⟨_, ((made.setInitial ⟨0⟩ rfl).setAccept ⟨2⟩ rfl).declareGroup .entireMatch rfl, rfl⟩

theorem Closure.advance_reaches_exactly_cyclic :
    ∃ loop : WorkLoop,
      WorkLoop.run .cyclic .finish 126 (.begin ⟨[⟨⟨1⟩, [⟨0⟩, ⟨1⟩]⟩]⟩ .finish ⟨2⟩) = .ok loop ∧
      advance .cyclic ⟨[⟨⟨1⟩, [⟨0⟩, ⟨1⟩]⟩]⟩ .finish ⟨2⟩ = .ok (loop.outcome, loop.supply) ∧
      loop.outcome = some (⟨[⟨⟨2⟩, [⟨0⟩, ⟨2⟩]⟩, ⟨⟨1⟩, [⟨0⟩, ⟨2⟩]⟩]⟩,
        [.copy ⟨2⟩ ⟨1⟩, .set ⟨2⟩ 0, .commitEnd ⟨2⟩]) ∧
      loop.entered = [⟨2⟩, ⟨1⟩, ⟨0⟩] ∧
      ∀ state, state ∈ loop.entered ↔
        Reaches ⟨2⟩ Connection.cycles ⟨[⟨⟨1⟩, [⟨0⟩, ⟨1⟩]⟩]⟩ .finish state := by
  obtain ⟨builder, made, built⟩ := Builder.exists_cyclic
  obtain ⟨loop, runs, success, -, entered, -⟩ := advance_reaches_exactly made built
    ⟨[⟨⟨1⟩, [⟨0⟩, ⟨1⟩]⟩]⟩ (by decide) .finish ⟨2⟩ (Fault.ne_error_of_isOk (by cbv) _)
  have ran := runs 126 (by decide)
  have facts : (WorkLoop.run .cyclic .finish 126 (.begin ⟨[⟨⟨1⟩, [⟨0⟩, ⟨1⟩]⟩]⟩ .finish ⟨2⟩)).map
      (fun loop => (loop.outcome, loop.entered)) =
      .ok (some (⟨[⟨⟨2⟩, [⟨0⟩, ⟨2⟩]⟩, ⟨⟨1⟩, [⟨0⟩, ⟨2⟩]⟩]⟩,
        [.copy ⟨2⟩ ⟨1⟩, .set ⟨2⟩ 0, .commitEnd ⟨2⟩]), [⟨2⟩, ⟨1⟩, ⟨0⟩]) := by cbv
  rw [ran] at facts
  obtain ⟨reached, order⟩ := Prod.mk.inj (Except.ok.inj facts)
  exact ⟨loop, ran, success, reached, order, entered⟩

end TaggedRegex
