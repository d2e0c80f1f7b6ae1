import TaggedRegex.Proofs.Determinised.Simulation

set_option autoImplicit false

/-!
One step of a configuration. Its instructions lead from histories that bear the trails of some
walkers to histories that bear the trails of the walkers one step on.
-/

namespace TaggedRegex

variable {automaton : Automaton} {scratch : HistoryId}

/-- The instructions do for the histories what the step does for the walkers. -/
def LeadsTo (automaton : Automaton) (step : Step) (source : List Thread)
    (instructions : List Instruction) (target : List Thread) : Prop :=
  ∀ (memory : Memory) (consumed : Nat) (walkers : List Walker),
    Carries automaton memory source walkers →
    ∃ after, memory.performAll ((consumed : Int) - 1) instructions = .ok after ∧
      Carries automaton after target (Walker.advance automaton step consumed walkers)

/-- Threads on different states whose histories have been handed out. -/
structure Configuration.WellNamed (automaton : Automaton) (scratch : HistoryId) (supply : Supply)
    (configuration : Configuration) : Prop where
  named : ∀ thread ∈ configuration.threads, Named automaton scratch supply thread.histories
  distinct : configuration.key.Nodup

theorem Configuration.WellNamed.mono {supply later : Supply} {configuration : Configuration}
    (named : configuration.WellNamed automaton scratch supply)
    (le : supply.issued ≤ later.issued) : configuration.WellNamed automaton scratch later :=
  ⟨fun thread member => (named.named thread member).mono le, named.distinct⟩

namespace Thread

theorem putInto_of_not_mem (thread : Thread) (threads : List Thread)
    (new : thread.state ∉ threads.map Thread.state) :
    thread.putInto threads = threads ++ [thread] := by
  induction threads with
  | nil => rfl
  | cons first rest ih =>
    rw [List.map_cons, List.mem_cons, not_or] at new
    rw [putInto, if_neg (Ne.symm new.1), ih new.2, List.cons_append]

theorem foldl_putInto (threads placed : List Thread)
    (distinct : ((placed ++ threads).map Thread.state).Nodup) :
    threads.foldl (fun placed thread => thread.putInto placed) placed = placed ++ threads := by
  induction threads generalizing placed with
  | nil => exact (List.append_nil placed).symm
  | cons thread rest ih =>
    have new : thread.state ∉ placed.map Thread.state := by
      rw [List.map_append, List.map_cons, List.nodup_append] at distinct
      intro member
      exact distinct.2.2 _ member _ (List.mem_cons_self ..) rfl
    rw [List.foldl_cons, putInto_of_not_mem thread placed new, ih, List.append_assoc,
      List.singleton_append]
    rw [List.append_assoc, List.singleton_append]
    exact distinct

end Thread

/-- Threads on different states are a configuration as they stand. -/
theorem Configuration.ofThreads_eq (threads : List Thread)
    (distinct : (threads.map Thread.state).Nodup) : ofThreads threads = ⟨threads⟩ := by
  rw [ofThreads, Thread.foldl_putInto threads [] distinct, List.nil_append]

namespace Closure

theorem Simulated.mono {before : Closure} {outcome : Except Fault Closure}
    {related weaker : Memory → Nat → (Survey → Survey) → Prop}
    (simulated : Simulated automaton scratch before outcome weaker)
    (implies : ∀ memory consumed move, related memory consumed move →
      weaker memory consumed move) :
    Simulated automaton scratch before outcome related := by
  rcases simulated with exhausted | ⟨after, added, success, ready, le, instructions, effect⟩
  · exact Or.inl exhausted
  · right
    refine ⟨after, added, success, ready, le, instructions, ?_⟩
    intro memory consumed move survey holds tracks
    exact effect memory consumed move survey (implies memory consumed move holds) tracks

/-- The move of the survey that stands for the step of one thread. -/
def ConsumeMove (automaton : Automaton) (step : Step) (thread : Thread) (memory : Memory)
    (consumed : Nat) (move : Survey → Survey) : Prop :=
  ∃ walker : Walker, thread.state = walker.state ∧
    Bears automaton memory thread.histories walker.trail ∧
    move = fun survey => survey.consume automaton step consumed walker

theorem consume_simulated (step : Step) {closure : Closure} {thread : Thread}
    (tagged : automaton.WellTagged) (ready : closure.Ready automaton scratch)
    (named : Named automaton scratch closure.supply thread.histories) :
    Simulated automaton scratch closure (consume automaton step closure thread)
      (ConsumeMove automaton step thread) := by
  have stay : Arrival.Ready automaton scratch closure.supply ⟨thread, none⟩ :=
    ⟨named, fun tag carries => by cases carries⟩
  have noLow : ∀ arrival ∈ ([] : List Arrival), arrival.Ready automaton scratch closure.supply :=
    fun arrival member => absurd member (List.not_mem_nil)
  cases step with
  | start =>
    apply (explore_simulated .start tagged ready
      (List.forall_mem_singleton.2 stay) noLow).mono
    intro memory consumed move related
    rcases related with ⟨walker, state, bears, rfl⟩
    exact ⟨[walker], [], List.Forall₂.cons (Arrival.stands_without_tag state bears consumed)
      List.Forall₂.nil, List.Forall₂.nil, rfl⟩
  | char c =>
    have overEdges := Arrival.ready_overEdges tagged named
      fun edge (member : edge ∈ automaton.onChar thread.state c) =>
        Automaton.hasEdge_of_mem_onChar member
    apply (explore_simulated (.char c) tagged ready overEdges noLow).mono
    intro memory consumed move related
    rcases related with ⟨walker, state, bears, rfl⟩
    refine ⟨_, [], Arrival.stands_overEdges bears consumed _, List.Forall₂.nil, ?_⟩
    rw [state]
    rfl
  | finish =>
    have overEdges : ∀ priority, ∀ arrival ∈ Arrival.withPriority thread.histories
        (automaton.onEnd thread.state) priority, arrival.Ready automaton scratch closure.supply :=
      fun priority => Arrival.ready_overEdges tagged named
        (fun edge member => Automaton.hasEdge_of_mem_edgesAt (List.mem_of_mem_filter member))
    have normalReady : ∀ arrival ∈ (if thread.state = automaton.accept then
        [(⟨thread, none⟩ : Arrival)] else []) ++ Arrival.withPriority thread.histories
          (automaton.onEnd thread.state) .normal,
        arrival.Ready automaton scratch closure.supply := by
      intro arrival member
      rcases List.mem_append.1 member with staying | crossing
      · split at staying
        · rw [List.mem_singleton.1 staying]
          exact stay
        · cases staying
      · exact overEdges .normal arrival crossing
    apply (explore_simulated .finish tagged ready normalReady (overEdges .low)).mono
    intro memory consumed move related
    rcases related with ⟨walker, state, bears, rfl⟩
    have staying : List.Forall₂ (Arrival.Stands automaton memory consumed)
        (if thread.state = automaton.accept then [⟨thread, none⟩] else [])
        (if walker.state = automaton.accept then [walker] else []) := by
      rw [state]
      split
      · exact List.Forall₂.cons (Arrival.stands_without_tag state bears consumed) List.Forall₂.nil
      · exact List.Forall₂.nil
    refine ⟨_, _, List.rel_append staying (Arrival.stands_overEdges bears consumed _),
      Arrival.stands_overEdges bears consumed _, ?_⟩
    rw [state]
    rfl

/-- The move of the survey that stands for the steps of several threads. -/
def FoldMove (automaton : Automaton) (step : Step) (threads : List Thread) (memory : Memory)
    (consumed : Nat) (move : Survey → Survey) : Prop :=
  ∃ walkers : List Walker, Carries automaton memory threads walkers ∧
    move = fun survey => walkers.foldl (Survey.consume automaton step consumed) survey

/-- The threads take the step one after the other, each on what the earlier ones left. -/
theorem foldlM_consume_simulated (step : Step) (threads : List Thread) {closure : Closure}
    (tagged : automaton.WellTagged) (ready : closure.Ready automaton scratch)
    (named : ∀ thread ∈ threads, Named automaton scratch closure.supply thread.histories) :
    Simulated automaton scratch closure (threads.foldlM (consume automaton step) closure)
      (FoldMove automaton step threads) := by
  induction threads generalizing closure with
  | nil =>
    right
    refine ⟨closure, [], rfl, ready, Nat.le_refl _, (List.append_nil _).symm, ?_⟩
    intro memory consumed move survey related tracks
    rcases related with ⟨walkers, carries, rfl⟩
    cases carries
    exact ⟨memory, rfl, .refl _ _, tracks⟩
  | cons thread rest ih =>
    have firstNamed := named thread (List.mem_cons_self ..)
    have restNamed : ∀ other ∈ rest, Named automaton scratch closure.supply other.histories :=
      fun other member => named other (List.mem_cons_of_mem _ member)
    rw [List.foldlM_cons]
    rcases consume_simulated step tagged ready firstNamed with
      exhausted | ⟨middle, added, success, middleReady, le, instructions, effect⟩
    · left
      rw [exhausted]
      rfl
    · rw [success]
      rcases ih middleReady fun other member => (restNamed other member).mono le with
        exhausted | ⟨after, more, success', afterReady, le', instructions', effect'⟩
      · exact Or.inl exhausted
      · right
        refine ⟨after, added ++ more, success', afterReady, Nat.le_trans le le', ?_, ?_⟩
        · rw [instructions', instructions, List.append_assoc]
        · intro memory consumed move survey related tracks
          rcases related with ⟨walkers, carries, rfl⟩
          cases carries with
          | cons both others =>
            rcases effect memory consumed _ survey ⟨_, both.1, both.2, rfl⟩ tracks with
              ⟨between, runs, agrees, tracks'⟩
            have others' := Carries.of_agrees others restNamed agrees
            rcases effect' between consumed _ _ ⟨_, others', rfl⟩ tracks' with
              ⟨final, runs', agrees', tracks''⟩
            exact ⟨final, (Memory.performAll_append_of_ok runs more).trans runs',
              agrees.trans agrees' le, tracks''⟩

/-- What a step of a configuration gives: no name is left, or no walker is left whatever the trails
were, or there is a next configuration, with instructions that lead there. -/
theorem advance_simulated {source : Configuration} (step : Step) {supply : Supply}
    (tagged : automaton.WellTagged) (named : source.WellNamed automaton scratch supply)
    (waiting : scratch.index < supply.issued)
    (single : step = .start → ∃ thread, source.threads = [thread]) :
    advance automaton source step supply = .error .historiesExhausted ∨
      ∃ reached later, advance automaton source step supply = .ok (reached, later) ∧
        supply.issued ≤ later.issued ∧
        match reached with
        | none => ∀ memory consumed walkers, Carries automaton memory source.threads walkers →
            Walker.advance automaton step consumed walkers = []
        | some (target, instructions) =>
            target.WellNamed automaton scratch later ∧
              LeadsTo automaton step source.threads instructions target.threads := by
  let unexplored : Closure := ⟨source.key ++ automaton.targets, [], [], supply⟩
  have ready : unexplored.Ready automaton scratch :=
    ⟨waiting, fun thread member => absurd member List.not_mem_nil, List.nodup_nil,
      fun thread member => absurd member List.not_mem_nil⟩
  have unfolded : advance automaton source step supply =
      (source.threads.foldlM (consume automaton step) unexplored).map fun closure =>
        (if closure.threads.isEmpty then none
          else some (.ofThreads closure.threads, closure.instructions), closure.supply) := by
    cases step with
    | start =>
      rcases single rfl with ⟨thread, alone⟩
      have once : source.threads.foldlM (consume automaton .start) unexplored =
          consume automaton .start unexplored thread := by
        rw [alone]
        exact bind_pure _
      rw [once, advance, alone]
      rfl
    | char c => rfl
    | finish => rfl
  rw [unfolded]
  rcases foldlM_consume_simulated step source.threads tagged ready named.named with
    exhausted | ⟨after, added, success, afterReady, le, instructions, effect⟩
  · left
    rw [exhausted]
    rfl
  · right
    rw [success]
    have run : ∀ (memory : Memory) (consumed : Nat) (walkers : List Walker),
        Carries automaton memory source.threads walkers →
        ∃ final, memory.performAll ((consumed : Int) - 1) added = .ok final ∧
          Carries automaton final after.threads
            (Walker.advance automaton step consumed walkers) := by
      intro memory consumed walkers carries
      have tracks : unexplored.Tracks automaton memory (Walker.unexplored automaton walkers) := by
        refine ⟨?_, List.Forall₂.nil⟩
        show source.threads.map Thread.state ++ automaton.targets = _
        rw [carries.map_state]
        rfl
      rcases effect memory consumed _ _ ⟨walkers, carries, rfl⟩ tracks with
        ⟨final, runs, -, tracks'⟩
      exact ⟨final, runs, tracks'.carries⟩
    refine ⟨_, after.supply, rfl, le, ?_⟩
    by_cases empty : after.threads.isEmpty = true
    · rw [if_pos empty]
      intro memory consumed walkers carries
      rcases run memory consumed walkers carries with ⟨final, -, carried⟩
      rw [List.isEmpty_iff.1 empty] at carried
      exact List.forall₂_nil_left_iff.1 carried
    · rw [if_neg empty, Configuration.ofThreads_eq _ afterReady.distinct]
      refine ⟨⟨afterReady.named, afterReady.distinct⟩, ?_⟩
      intro memory consumed walkers carries
      rcases run memory consumed walkers carries with ⟨final, runs, carried⟩
      rw [instructions]
      exact ⟨final, runs, carried⟩

end Closure

end TaggedRegex
