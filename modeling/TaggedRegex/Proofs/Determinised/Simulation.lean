import TaggedRegex.Proofs.Determinised.Exploration

set_option autoImplicit false

/-!
A step of all threads follows a step of all walkers. What a stretch of work adds to a closure is one
list of instructions, whichever memory and whichever walkers it is run for.
-/

namespace TaggedRegex

variable {automaton : Automaton} {scratch : HistoryId}

namespace Closure

/-- The names in a closure have been handed out, and its threads stand on different states, which
are no longer unvisited. -/
structure Ready (automaton : Automaton) (scratch : HistoryId) (closure : Closure) : Prop where
  waiting : scratch.index < closure.supply.issued
  named : ∀ thread ∈ closure.threads, Named automaton scratch closure.supply thread.histories
  distinct : (closure.threads.map Thread.state).Nodup
  apart : ∀ thread ∈ closure.threads, thread.state ∉ closure.unvisited

/-- The closure and the survey have got equally far. -/
structure Tracks (automaton : Automaton) (memory : Memory) (closure : Closure)
    (survey : Survey) : Prop where
  unvisited : closure.unvisited = survey.unvisited
  carries : Carries automaton memory closure.threads (survey.live automaton)

/-- Whatever memory and walkers the work is done for: `related` says for which moves of the survey
the work stands. The instructions are added once and for all; they bring the memory to where the
move brings the survey. -/
def Simulated (automaton : Automaton) (scratch : HistoryId) (before : Closure)
    (outcome : Except Fault Closure) (related : Memory → Nat → (Survey → Survey) → Prop) : Prop :=
  outcome = .error .historiesExhausted ∨
    ∃ after added, outcome = .ok after ∧ after.Ready automaton scratch ∧
      before.supply.issued ≤ after.supply.issued ∧
      after.instructions = before.instructions ++ added ∧
      ∀ memory consumed move survey, related memory consumed move →
        before.Tracks automaton memory survey →
        ∃ final, memory.performAll ((consumed : Int) - 1) added = .ok final ∧
          memory.AgreesBelow before.supply.issued final ∧
          after.Tracks automaton final (move survey)

/-- The closure after a thread has entered the state of an arrival. -/
def entered (automaton : Automaton) (closure : Closure) (arrival : Arrival) (thread : Thread)
    (added : List Instruction) (supply : Supply) : Closure where
  unvisited := withoutState arrival.thread.state closure.unvisited
  threads := if automaton.isLive thread.state then closure.threads ++ [thread] else closure.threads
  instructions := closure.instructions ++ added
  supply := supply

theorem explore_nil (step : Step) (closure : Closure) :
    explore automaton step [] [] closure = .ok closure := by
  rw [explore]
  rfl

/-- What is done with the next arrival. -/
theorem explore_of_next? {normal low normal' low' : List Arrival} {arrival : Arrival}
    (found : Arrival.next? normal low = some (arrival, normal', low')) (step : Step)
    (closure : Closure) :
    explore automaton step normal low closure =
      if arrival.thread.state ∈ closure.unvisited then
        match arrival.crossTag automaton closure.supply with
        | .error fault => .error fault
        | .ok (thread, instructions, supply) =>
            let edges := freeEdges automaton step thread.state
            explore automaton step
              (Arrival.withPriority thread.histories edges .normal ++ normal')
              (Arrival.withPriority thread.histories edges .low ++ low')
              (closure.entered automaton arrival thread instructions supply)
      else explore automaton step normal' low' closure := by
  rw [explore]
  split
  · rename_i none
    rw [found] at none
    cases none
  · rename_i next nextNormal nextLow same
    obtain ⟨rfl, rfl, rfl⟩ : arrival = next ∧ normal' = nextNormal ∧ low' = nextLow := by
      simpa only [Option.some.injEq, Prod.mk.injEq] using found.symm.trans same
    rfl

theorem Ready.entered {closure : Closure} {arrival : Arrival} {thread : Thread}
    (ready : closure.Ready automaton scratch)
    (member : arrival.thread.state ∈ closure.unvisited)
    (state : thread.state = arrival.thread.state) (added : List Instruction) {supply : Supply}
    (le : closure.supply.issued ≤ supply.issued)
    (named : Named automaton scratch supply thread.histories) :
    (closure.entered automaton arrival thread added supply).Ready automaton scratch := by
  have old : ∀ other ∈ closure.threads, Named automaton scratch supply other.histories :=
    fun other otherMember => (ready.named other otherMember).mono le
  have oldApart : ∀ other ∈ closure.threads,
      other.state ∉ withoutState arrival.thread.state closure.unvisited := by
    intro other otherMember inside
    rw [Survey.mem_withoutState] at inside
    exact ready.apart other otherMember inside.1
  have split : ∀ other ∈ (closure.entered automaton arrival thread added supply).threads,
      other ∈ closure.threads ∨ other = thread := by
    intro other otherMember
    rw [Closure.entered] at otherMember
    dsimp only at otherMember
    split at otherMember
    · simpa using otherMember
    · exact Or.inl otherMember
  refine ⟨Nat.lt_of_lt_of_le ready.waiting le, ?_, ?_, ?_⟩
  · intro other otherMember
    rcases split other otherMember with early | rfl
    · exact old other early
    · exact named
  · rw [Closure.entered]
    dsimp only
    split
    · rw [List.map_append, List.nodup_append]
      refine ⟨ready.distinct, by simp, ?_⟩
      intro first early second late same
      rcases List.mem_map.1 early with ⟨other, otherMember, rfl⟩
      obtain rfl : second = thread.state := by simpa using late
      exact ready.apart other otherMember (by rw [same, state]; exact member)
    · exact ready.distinct
  · intro other otherMember
    rcases split other otherMember with early | rfl
    · exact oldApart other early
    · intro inside
      rw [Closure.entered, Survey.mem_withoutState] at inside
      exact inside.2 state

theorem Tracks.entered {closure : Closure} {survey : Survey} {memory after : Memory}
    {arrival : Arrival} {thread : Thread} {walker : Walker}
    (ready : closure.Ready automaton scratch)
    (tracks : closure.Tracks automaton memory survey)
    (agrees : memory.AgreesBelow closure.supply.issued after)
    (same : arrival.thread.state = walker.state)
    (state : thread.state = arrival.thread.state)
    (bears : Bears automaton after thread.histories walker.trail)
    (added : List Instruction) (supply : Supply) :
    (closure.entered automaton arrival thread added supply).Tracks automaton after
      (survey.enter walker) := by
  have old := tracks.carries.of_agrees ready.named agrees
  constructor
  · show withoutState arrival.thread.state closure.unvisited = _
    rw [tracks.unvisited, same]
    rfl
  · show Carries automaton after
      (if automaton.isLive thread.state then closure.threads ++ [thread] else closure.threads)
      ((survey.entered ++ [walker]).filter fun walker => automaton.isLive walker.state)
    rw [List.filter_append]
    by_cases live : automaton.isLive thread.state = true
    · rw [if_pos live, List.filter_cons_of_pos (by rw [← same, ← state]; exact live)]
      exact List.rel_append old (List.Forall₂.cons ⟨state.trans same, bears⟩ List.Forall₂.nil)
    · rw [if_neg live, List.filter_cons_of_neg (by rw [← same, ← state]; exact live),
        List.filter_nil, List.append_nil]
      exact old

/-- The moves of the survey that stand for an exploration from some arrivals. -/
def ExploreMove (automaton : Automaton) (step : Step) (normal low : List Arrival)
    (memory : Memory) (consumed : Nat) (move : Survey → Survey) : Prop :=
  ∃ normalWalkers lowWalkers : List Walker,
    List.Forall₂ (Arrival.Stands automaton memory consumed) normal normalWalkers ∧
    List.Forall₂ (Arrival.Stands automaton memory consumed) low lowWalkers ∧
    move = Survey.explore (freeEdges automaton step) consumed normalWalkers lowWalkers

theorem stand_of_agrees {before after : Memory} {supply : Supply} {consumed : Nat}
    {arrivals : List Arrival} {walkers : List Walker}
    (stand : List.Forall₂ (Arrival.Stands automaton before consumed) arrivals walkers)
    (ready : ∀ arrival ∈ arrivals, arrival.Ready automaton scratch supply)
    (agrees : before.AgreesBelow supply.issued after) :
    List.Forall₂ (Arrival.Stands automaton after consumed) arrivals walkers := by
  induction stand with
  | nil => exact List.Forall₂.nil
  | cons first rest ih =>
    apply List.Forall₂.cons
    · exact first.of_agrees (ready _ (List.mem_cons_self ..)) agrees
    · exact ih fun arrival member => ready arrival (List.mem_cons_of_mem _ member)

/-- Both explorations take the next arrival from the same stack. -/
theorem next?_stands {memory : Memory} {consumed : Nat} {normal low normal' low' : List Arrival}
    {arrival : Arrival} {normalWalkers lowWalkers : List Walker}
    (found : Arrival.next? normal low = some (arrival, normal', low'))
    (normalStand : List.Forall₂ (Arrival.Stands automaton memory consumed) normal normalWalkers)
    (lowStand : List.Forall₂ (Arrival.Stands automaton memory consumed) low lowWalkers) :
    ∃ walker normalWalkers' lowWalkers',
      Walker.next? normalWalkers lowWalkers = some (walker, normalWalkers', lowWalkers') ∧
      arrival.Stands automaton memory consumed walker ∧
      List.Forall₂ (Arrival.Stands automaton memory consumed) normal' normalWalkers' ∧
      List.Forall₂ (Arrival.Stands automaton memory consumed) low' lowWalkers' := by
  cases normalStand with
  | cons first rest =>
    cases found
    exact ⟨_, _, _, rfl, first, rest, lowStand⟩
  | nil =>
    cases lowStand with
    | cons first rest =>
      cases found
      exact ⟨_, _, _, rfl, first, List.Forall₂.nil, rest⟩
    | nil => cases found

theorem ready_of_next? {supply : Supply} {normal low normal' low' : List Arrival}
    {arrival : Arrival} (found : Arrival.next? normal low = some (arrival, normal', low'))
    (normalReady : ∀ other ∈ normal, other.Ready automaton scratch supply)
    (lowReady : ∀ other ∈ low, other.Ready automaton scratch supply) :
    arrival.Ready automaton scratch supply ∧
      (∀ other ∈ normal', other.Ready automaton scratch supply) ∧
      ∀ other ∈ low', other.Ready automaton scratch supply := by
  cases normal with
  | cons first rest =>
    cases found
    exact ⟨normalReady _ (List.mem_cons_self ..),
      fun other member => normalReady other (List.mem_cons_of_mem _ member), lowReady⟩
  | nil =>
    cases low with
    | cons first rest =>
      cases found
      exact ⟨lowReady _ (List.mem_cons_self ..), normalReady,
        fun other member => lowReady other (List.mem_cons_of_mem _ member)⟩
    | nil => cases found

/-- The arrivals over the edges of a thread may be put in front of a stack. -/
theorem ready_stack {supply later : Supply} {thread : Thread} {step : Step} {waiting : List Arrival}
    (tagged : automaton.WellTagged) (named : Named automaton scratch later thread.histories)
    (le : supply.issued ≤ later.issued)
    (ready : ∀ other ∈ waiting, other.Ready automaton scratch supply) (priority : Priority) :
    ∀ other ∈ Arrival.withPriority thread.histories (freeEdges automaton step thread.state)
        priority ++ waiting, other.Ready automaton scratch later := by
  intro other member
  rcases List.mem_append.1 member with new | old
  · apply Arrival.ready_overEdges tagged named ?_ other new
    intro edge edgeMember
    exact Automaton.hasEdge_of_mem_freeEdges (List.mem_of_mem_filter edgeMember)
  · exact (ready other old).mono le

/-- Walkers that follow the edges of a thread stand for the arrivals in front of a stack. -/
theorem stands_stack {before after : Memory} {supply : Supply} {consumed : Nat} {thread : Thread}
    {walker : Walker} {edges : List Edge} {waiting : List Arrival} {walkers : List Walker}
    (bears : Bears automaton after thread.histories walker.trail)
    (ready : ∀ other ∈ waiting, other.Ready automaton scratch supply)
    (agrees : before.AgreesBelow supply.issued after)
    (stand : List.Forall₂ (Arrival.Stands automaton before consumed) waiting walkers)
    (priority : Priority) :
    List.Forall₂ (Arrival.Stands automaton after consumed)
      (Arrival.withPriority thread.histories edges priority ++ waiting)
      (walker.followWith consumed edges priority ++ walkers) :=
  List.rel_append (Arrival.stands_overEdges bears consumed _) (stand_of_agrees stand ready agrees)

theorem explore_simulated (step : Step) {normal low : List Arrival} {closure : Closure}
    (tagged : automaton.WellTagged) (ready : closure.Ready automaton scratch)
    (normalReady : ∀ arrival ∈ normal, arrival.Ready automaton scratch closure.supply)
    (lowReady : ∀ arrival ∈ low, arrival.Ready automaton scratch closure.supply) :
    Simulated automaton scratch closure (explore automaton step normal low closure)
      (ExploreMove automaton step normal low) := by
  fun_induction explore automaton step normal low closure with
  | case1 normal low closure found =>
    right
    refine ⟨closure, [], rfl, ready, Nat.le_refl _, (List.append_nil _).symm, ?_⟩
    intro memory consumed move survey related tracks
    rcases related with ⟨normalWalkers, lowWalkers, normalStand, lowStand, rfl⟩
    refine ⟨memory, rfl, .refl _ _, ?_⟩
    cases normalStand with
    | cons first rest => cases found
    | nil =>
      cases lowStand with
      | cons first rest => cases found
      | nil =>
        rw [Survey.explore_nil]
        exact tracks
  | case2 normal low closure arrival normal' low' found member fault failed =>
    left
    rcases ready_of_next? found normalReady lowReady with ⟨arrivalReady, -, -⟩
    rcases Arrival.crossTag_simulated tagged ready.waiting arrivalReady with
      exhausted | ⟨thread, added, later, success, -⟩
    · rw [exhausted] at failed
      exact congrArg Except.error (Except.error.inj failed).symm
    · rw [success] at failed
      cases failed
  | case3 normal low closure arrival normal' low' found member other changes rest crossed
      edges ih =>
    rcases ready_of_next? found normalReady lowReady with ⟨arrivalReady, normalReady', lowReady'⟩
    rcases Arrival.crossTag_simulated tagged ready.waiting arrivalReady with
      exhausted | ⟨thread, added, supply, success, state, le, named, effect⟩
    · rw [exhausted] at crossed
      cases crossed
    · obtain ⟨rfl, rfl, rfl⟩ : thread = other ∧ added = changes ∧ supply = rest := by
        simpa only [Except.ok.injEq, Prod.mk.injEq] using success.symm.trans crossed
      have next : Simulated automaton scratch
          (closure.entered automaton arrival thread added supply) _ _ :=
        ih (ready.entered member state added le named)
          (ready_stack tagged named le normalReady' .normal)
          (ready_stack tagged named le lowReady' .low)
      rcases next with exhausted | ⟨after, more, success', afterReady, le', instructions, effect'⟩
      · exact Or.inl exhausted
      · right
        refine ⟨after, added ++ more, success', afterReady, Nat.le_trans le le', ?_, ?_⟩
        · exact instructions.trans (List.append_assoc _ _ _)
        · intro memory consumed move survey related tracks
          rcases related with ⟨normalWalkers, lowWalkers, normalStand, lowStand, rfl⟩
          rcases next?_stands found normalStand lowStand with
            ⟨walker, normalWalkers', lowWalkers', foundWalker, stands, normalStand', lowStand'⟩
          rcases effect memory consumed walker stands with ⟨middle, runs, agrees, bears⟩
          have tracks' := tracks.entered ready agrees stands.state state bears added supply
          have same : thread.state = walker.state := state.trans stands.state
          have follows : ExploreMove automaton step
              (Arrival.withPriority thread.histories edges .normal ++ normal')
              (Arrival.withPriority thread.histories edges .low ++ low') middle consumed
              (Survey.explore (freeEdges automaton step) consumed
                (walker.followWith consumed (freeEdges automaton step walker.state) .normal ++
                  normalWalkers')
                (walker.followWith consumed (freeEdges automaton step walker.state) .low ++
                  lowWalkers')) := by
            rw [← same]
            exact ⟨_, _, stands_stack bears normalReady' agrees normalStand' .normal,
              stands_stack bears lowReady' agrees lowStand' .low, rfl⟩
          rcases effect' middle consumed _ (survey.enter walker) follows tracks' with
            ⟨final, runs', agrees', tracks''⟩
          refine ⟨final, (Memory.performAll_append_of_ok runs more).trans runs',
            agrees.trans agrees' le, ?_⟩
          have unvisited : walker.state ∈ survey.unvisited := by
            rw [← tracks.unvisited, ← stands.state]
            exact member
          rw [Survey.explore_of_next? foundWalker, if_pos unvisited]
          exact tracks''
  | case4 normal low closure arrival normal' low' found member ih =>
    rcases ready_of_next? found normalReady lowReady with ⟨-, normalReady', lowReady'⟩
    rcases ih ready normalReady' lowReady' with
      exhausted | ⟨after, added, success, afterReady, le, instructions, effect⟩
    · exact Or.inl exhausted
    · right
      refine ⟨after, added, success, afterReady, le, instructions, ?_⟩
      intro memory consumed move survey related tracks
      rcases related with ⟨normalWalkers, lowWalkers, normalStand, lowStand, rfl⟩
      rcases next?_stands found normalStand lowStand with
        ⟨walker, normalWalkers', lowWalkers', foundWalker, stands, normalStand', lowStand'⟩
      rcases effect memory consumed _ survey ⟨_, _, normalStand', lowStand', rfl⟩ tracks with
        ⟨final, runs, agrees, tracks'⟩
      refine ⟨final, runs, agrees, ?_⟩
      have visited : walker.state ∉ survey.unvisited := by
        rw [← tracks.unvisited, ← stands.state]
        exact member
      rw [Survey.explore_of_next? foundWalker, if_neg visited]
      exact tracks'

end Closure

end TaggedRegex
