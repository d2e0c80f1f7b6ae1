import Mathlib.Data.List.Flatten
import Mathlib.Data.List.Permutation
import TaggedRegex.Proofs.Growth.Names
import TaggedRegex.Proofs.Guarded.WorkLists
import TaggedRegex.Proofs.Tour.Basic

set_option autoImplicit false

/-!
One step of all threads, turn by turn. A loop takes what comes next off its work lists and remembers
the states that it has entered; it is not told which states there are. It comes to an end all the
same, and has done then what the step does.
-/

namespace TaggedRegex

/-! ### Edges that may be taken at once -/

namespace Automaton

variable {automaton : Automaton}

theorem length_edgesAt_le (automaton : Automaton) (state : StateId) (label : Label) :
    (automaton.edgesAt state label).length ≤ automaton.targets.length := by
  rw [edgesAt]
  split
  · rename_i row found
    have part := (List.singleton_sublist.2 (List.mem_of_find?_eq_some found)).flatMap
      fun row => row.edges.map Edge.target
    simpa [targets] using part.length_le
  · exact Nat.zero_le _

theorem length_onChar_le (automaton : Automaton) (state : StateId) (c : Char) :
    (automaton.onChar state c).length ≤ automaton.targets.length := by
  rw [onChar, List.length_mergeSort, ← List.length_map Edge.target, List.map_flatMap]
  exact (List.filter_sublist.flatMap _).length_le

theorem length_freeEdges_le (automaton : Automaton) (step : Step) (state : StateId) :
    (Closure.freeEdges automaton step state).length ≤ 2 * automaton.targets.length := by
  have epsilon := automaton.length_edgesAt_le state .epsilon
  have atEnd := automaton.length_edgesAt_le state .atEnd
  cases step with
  | start =>
    show (automaton.edgesAt state .epsilon).length ≤ _
    omega
  | char c =>
    show (automaton.edgesAt state .epsilon).length ≤ _
    omega
  | finish =>
    rw [Closure.freeEdges, List.length_mergeSort, List.length_append]
    show (automaton.edgesAt state .epsilon).length + (automaton.edgesAt state .atEnd).length ≤ _
    omega

end Automaton

namespace Arrival

def state (arrival : Arrival) : StateId := arrival.thread.state

theorem next?_eq_nextOf (normal low : List Arrival) : next? normal low = nextOf normal low := by
  cases normal <;> cases low <;> rfl

theorem map_state_overEdges (histories : List HistoryId) (edges : List Edge) :
    (overEdges histories edges).map state = edges.map Edge.target :=
  List.map_map

/-- With both priorities, the arrivals stand behind all of the edges. -/
theorem perm_withPriority (histories : List HistoryId) (edges : List Edge) :
    ((withPriority histories edges .normal ++ withPriority histories edges .low).map state).Perm
      (edges.map Edge.target) := by
  have low : (fun edge : Edge => decide (edge.priority = .low)) =
      fun edge => !decide (edge.priority = .normal) := by
    funext edge
    cases edge.priority <;> rfl
  rw [List.map_append, withPriority, withPriority, map_state_overEdges, map_state_overEdges,
    ← List.map_append, low]
  exact (List.filter_append_perm _ edges).map Edge.target

theorem state_of_crossTag {automaton : Automaton} {supply later : Supply} {arrival : Arrival}
    {thread : Thread} {instructions : List Instruction}
    (crossed : arrival.crossTag automaton supply = .ok (thread, instructions, later)) :
    thread.state = arrival.state :=
  (cost_of_crossTag crossed).1

end Arrival

/-! ### The loop -/

/-- Where the loop stands: its work lists, the states that it has entered, and the result so far. -/
structure WorkLoop where
  lists : WorkLists
  entered : List StateId
  threads : List Thread
  instructions : List Instruction
  supply : Supply

namespace WorkLoop

/-- All threads wait: at the start to be entered, otherwise to take the step. -/
def begin (source : Configuration) (step : Step) (supply : Supply) : WorkLoop where
  lists := match step with
    | .start => ⟨source.threads.map fun thread => ⟨thread, none⟩, [], []⟩
    | _ => ⟨[], [], source.threads⟩
  entered := []
  threads := []
  instructions := []
  supply := supply

/-- The loop after a thread has entered its state; `normal` and `low` wait behind what follows. -/
def enter (automaton : Automaton) (step : Step) (loop : WorkLoop) (thread : Thread)
    (instructions : List Instruction) (supply : Supply) (normal low : List Arrival) : WorkLoop :=
  let edges := Closure.freeEdges automaton step thread.state
  { lists := ⟨Arrival.withPriority thread.histories edges .normal ++ normal,
      Arrival.withPriority thread.histories edges .low ++ low, loop.lists.hungry⟩
    entered := loop.entered ++ [thread.state]
    threads := if automaton.isLive thread.state then loop.threads ++ [thread] else loop.threads
    instructions := loop.instructions ++ instructions
    supply := supply }

/-- One turn of the loop, or none if nothing is left to do. -/
def turn (automaton : Automaton) (step : Step) (loop : WorkLoop) :
    Except Breach (Option WorkLoop) :=
  match Arrival.next? loop.lists.normal loop.lists.low with
  | some (arrival, normal, low) =>
      if arrival.state ∈ loop.entered then
        .ok (some { loop with lists := ⟨normal, low, loop.lists.hungry⟩ })
      else
        match arrival.crossTag automaton loop.supply with
        | .error fault => .error (.fault fault)
        | .ok (thread, instructions, supply) =>
            .ok (some (loop.enter automaton step thread instructions supply normal low))
  | none =>
      match loop.lists.hungry with
      | [] => .ok none
      | thread :: rest =>
          match WorkLists.fed automaton step thread with
          | .error breach => .error breach
          | .ok (normal, low) =>
              .ok (some { loop with
                lists := ⟨normal ++ loop.lists.normal, low ++ loop.lists.low, rest⟩ })

/-- The loop when it has come to its end, unless it takes more turns than these. -/
def run (automaton : Automaton) (step : Step) : Nat → WorkLoop → Except Breach WorkLoop
  | 0, _ => .error .endless
  | turns + 1, loop =>
      match loop.turn automaton step with
      | .error breach => .error breach
      | .ok none => .ok loop
      | .ok (some next) => run automaton step turns next

/-- What the loop has found. -/
def outcome (loop : WorkLoop) : Option (Configuration × List Instruction) :=
  if loop.threads.isEmpty then none else some (.ofThreads loop.threads, loop.instructions)

/-- The states that wait to be entered. -/
def waiting (loop : WorkLoop) : List StateId :=
  (loop.lists.normal ++ loop.lists.low).map Arrival.state

variable {automaton : Automaton} {step : Step} {loop next final : WorkLoop}

/-! ### What a turn does -/

/-- A turn passes over an arrival, or enters its state, or lets a thread take the step when no
arrival is left. -/
inductive Turns (automaton : Automaton) (step : Step) (loop : WorkLoop) : WorkLoop → Prop
  | skip {arrival : Arrival} {normal low : List Arrival} :
      nextOf loop.lists.normal loop.lists.low = some (arrival, normal, low) →
      arrival.state ∈ loop.entered →
      Turns automaton step loop { loop with lists := ⟨normal, low, loop.lists.hungry⟩ }
  | enter {arrival : Arrival} {normal low : List Arrival} {thread : Thread}
      {instructions : List Instruction} {supply : Supply} :
      nextOf loop.lists.normal loop.lists.low = some (arrival, normal, low) →
      arrival.state ∉ loop.entered →
      arrival.crossTag automaton loop.supply = .ok (thread, instructions, supply) →
      Turns automaton step loop (loop.enter automaton step thread instructions supply normal low)
  | feed {thread : Thread} {rest : List Thread} {normal low : List Arrival} :
      loop.lists = ⟨[], [], thread :: rest⟩ →
      WorkLists.fed automaton step thread = .ok (normal, low) →
      Turns automaton step loop { loop with lists := ⟨normal, low, rest⟩ }

theorem turns_of_turn (turned : loop.turn automaton step = .ok (some next)) :
    Turns automaton step loop next := by
  obtain ⟨⟨normal, low, hungry⟩, entered, threads, instructions, supply⟩ := loop
  unfold turn at turned
  split at turned
  · rename_i arrival normal' low' found
    rw [Arrival.next?_eq_nextOf] at found
    split at turned
    · rename_i visited
      obtain rfl := Option.some.inj (Except.ok.inj turned)
      exact .skip found visited
    · rename_i unvisited
      split at turned
      · cases turned
      · rename_i crossed
        obtain rfl := Option.some.inj (Except.ok.inj turned)
        exact .enter found unvisited crossed
  · rename_i missing
    obtain ⟨rfl, rfl⟩ := WorkLists.eq_nil_of_next?_eq_none missing
    split at turned
    · cases turned
    · rename_i thread rest waits
      obtain rfl : hungry = thread :: rest := waits
      split at turned
      · cases turned
      · rename_i normal' low' feeds
        obtain rfl := Option.some.inj (Except.ok.inj turned)
        rw [List.append_nil, List.append_nil]
        exact .feed rfl feeds

/-- The loop comes to its end when all its lists are empty. -/
theorem lists_eq_empty (ended : loop.turn automaton step = .ok none) : loop.lists = .empty := by
  obtain ⟨⟨normal, low, hungry⟩, entered, threads, instructions, supply⟩ := loop
  unfold turn at ended
  split at ended
  · split at ended
    · cases ended
    · split at ended <;> cases ended
  · rename_i missing
    obtain ⟨rfl, rfl⟩ := WorkLists.eq_nil_of_next?_eq_none missing
    split at ended
    · rename_i fed
      obtain rfl : hungry = [] := fed
      rfl
    · split at ended <;> cases ended

/-- What every turn preserves holds at the end of a run, and then all lists are empty. -/
theorem run_preserves {holds : WorkLoop → Prop}
    (each : ∀ loop next, Turns automaton step loop next → holds loop → holds next) {turns : Nat}
    (ran : run automaton step turns loop = .ok final) (first : holds loop) :
    holds final ∧ final.lists = .empty := by
  induction turns generalizing loop with
  | zero => cases ran
  | succ turns ih =>
    rw [run] at ran
    split at ran
    · cases ran
    · rename_i ended
      obtain rfl := Except.ok.inj ran
      exact ⟨first, lists_eq_empty ended⟩
    · rename_i next turned
      exact ih ran (each loop next (turns_of_turn turned) first)

/-- A run that has ended does not go on. -/
theorem run_of_le {turns more : Nat} (ran : run automaton step turns loop = .ok final)
    (le : turns ≤ more) : run automaton step more loop = .ok final := by
  induction turns generalizing loop more with
  | zero => cases ran
  | succ turns ih =>
    obtain ⟨more, rfl⟩ : ∃ fewer, more = fewer + 1 := ⟨more - 1, by omega⟩
    rw [run] at ran ⊢
    split at ran
    · cases ran
    · exact ran
    · exact ih ran (Nat.le_of_succ_le_succ le)

/-! ### What waits after a turn -/

theorem waiting_of_nextOf {arrival : Arrival} {normal low : List Arrival}
    (found : nextOf loop.lists.normal loop.lists.low = some (arrival, normal, low)) :
    loop.waiting = arrival.state :: (normal ++ low).map Arrival.state := by
  rw [waiting, append_eq_of_nextOf found, List.map_cons]

/-- Behind an entered state wait the ends of the edges that are followed freely. -/
theorem waiting_enter (thread : Thread) (instructions : List Instruction) (supply : Supply)
    (normal low : List Arrival) :
    (loop.enter automaton step thread instructions supply normal low).waiting.Perm
      ((Closure.freeEdges automaton step thread.state).map Edge.target ++
        (normal ++ low).map Arrival.state) := by
  have all := Arrival.perm_withPriority thread.histories
    (Closure.freeEdges automaton step thread.state)
  rw [List.map_append] at all
  simp only [waiting, enter, List.map_append]
  refine List.Perm.trans ?_ (all.append_right _)
  rw [List.append_assoc, List.append_assoc]
  exact (List.perm_append_comm_assoc ..).append_left _

/-- The states to which a thread gets by taking the step. -/
def departures (automaton : Automaton) (step : Step) (state : StateId) : List StateId :=
  match step with
  | .start => [state]
  | .char c => (automaton.onChar state c).map Edge.target
  | .finish =>
      (if state = automaton.accept then [state] else []) ++
        (automaton.onEnd state).map Edge.target

theorem departures_of_fed {thread : Thread} {normal low : List Arrival}
    (feeds : WorkLists.fed automaton step thread = .ok (normal, low)) :
    ((normal ++ low).map Arrival.state).Perm (departures automaton step thread.state) := by
  cases step with
  | start => cases feeds
  | char c =>
    rw [WorkLists.fed_char] at feeds
    obtain ⟨rfl, rfl⟩ := Prod.mk.inj (Except.ok.inj feeds)
    rw [List.append_nil, Arrival.map_state_overEdges]
    exact .refl _
  | finish =>
    obtain ⟨rfl, rfl⟩ := Prod.mk.inj (Except.ok.inj feeds)
    rw [List.append_assoc, List.map_append, departures]
    refine List.Perm.append ?_ (Arrival.perm_withPriority _ _)
    split <;> exact .refl _

theorem length_departures_le (automaton : Automaton) (step : Step) (state : StateId) :
    (departures automaton step state).length ≤ automaton.targets.length + 1 := by
  cases step with
  | start => exact Nat.succ_le_succ (Nat.zero_le _)
  | char c =>
    rw [departures, List.length_map]
    exact Nat.le_succ_of_le (automaton.length_onChar_le state c)
  | finish =>
    have crossing := automaton.length_edgesAt_le state .atEnd
    rw [departures, List.length_append, List.length_map]
    show _ + (automaton.edgesAt state .atEnd).length ≤ _
    split <;> simp <;> omega

/-! ### What the loop does not leave -/

/-- What the loop does not leave: the threads get into it by taking the step, and no edge that is
followed freely leads out of it. -/
structure Closed (automaton : Automaton) (source : Configuration) (step : Step)
    (holds : StateId → Prop) : Prop where
  departs : ∀ thread ∈ source.threads, ∀ target ∈ departures automaton step thread.state,
    holds target
  follows : ∀ state, holds state → ∀ edge ∈ Closure.freeEdges automaton step state,
    holds edge.target

/-- The loop has only come upon states of one kind. -/
structure Within (source : Configuration) (holds : StateId → Prop) (loop : WorkLoop) : Prop where
  hungry : ∀ thread ∈ loop.lists.hungry, thread ∈ source.threads
  waiting : ∀ state ∈ loop.waiting, holds state
  entered : ∀ state ∈ loop.entered, holds state

variable {source : Configuration} {holds : StateId → Prop}

theorem within_begin (closed : Closed automaton source step holds) (supply : Supply) :
    (begin source step supply).Within source holds := by
  have nothing : ∀ state ∈ ([] : List StateId), holds state :=
    fun _ member => absurd member List.not_mem_nil
  cases step with
  | start =>
    refine ⟨fun _ member => absurd member List.not_mem_nil, fun state member => ?_, nothing⟩
    simp only [waiting, begin, List.append_nil, List.map_map] at member
    obtain ⟨thread, threadMember, rfl⟩ := List.mem_map.1 member
    exact closed.departs thread threadMember _ (List.mem_singleton.2 rfl)
  | char c => exact ⟨fun _ member => member, nothing, nothing⟩
  | finish => exact ⟨fun _ member => member, nothing, nothing⟩

theorem Within.turns (within : loop.Within source holds)
    (closed : Closed automaton source step holds) (turns : Turns automaton step loop next) :
    next.Within source holds := by
  cases turns with
  | skip found visited =>
    refine ⟨within.hungry, fun state member => within.waiting state ?_, within.entered⟩
    rw [waiting_of_nextOf found]
    exact List.mem_cons_of_mem _ member
  | @enter arrival normal low thread instructions supply found unvisited crossed =>
    have waits := within.waiting
    rw [waiting_of_nextOf found, List.forall_mem_cons,
      ← Arrival.state_of_crossTag crossed] at waits
    refine ⟨within.hungry, fun state member => ?_, fun state member => ?_⟩
    · rcases List.mem_append.1 ((waiting_enter thread ..).mem_iff.1 member) with onward | rest
      · obtain ⟨edge, edgeMember, rfl⟩ := List.mem_map.1 onward
        exact closed.follows _ waits.1 edge edgeMember
      · exact waits.2 state rest
    · rcases List.mem_append.1 member with old | new
      · exact within.entered state old
      · rw [List.mem_singleton.1 new]
        exact waits.1
  | @feed thread rest normal low lists feeds =>
    have hungry := within.hungry
    rw [lists, List.forall_mem_cons] at hungry
    refine ⟨hungry.2, fun state member => ?_, within.entered⟩
    exact closed.departs thread hungry.1 state ((departures_of_fed feeds).mem_iff.1 member)

/-- The states that may be entered at all. -/
def candidates (automaton : Automaton) (source : Configuration) : List StateId :=
  source.key ++ automaton.targets

theorem closed_candidates (automaton : Automaton) (source : Configuration) (step : Step) :
    Closed automaton source step fun state => state ∈ candidates automaton source := by
  have has : ∀ edge, automaton.HasEdge edge → edge.target ∈ candidates automaton source :=
    fun edge has => List.mem_append_right _ (Automaton.target_mem_targets has)
  refine ⟨fun thread member target departing => ?_, fun state _ edge member =>
    has edge (Automaton.hasEdge_of_mem_freeEdges member)⟩
  have inKey : thread.state ∈ candidates automaton source :=
    List.mem_append_left _ (List.mem_map_of_mem member)
  cases step with
  | start =>
    rw [List.mem_singleton.1 departing]
    exact inKey
  | char c =>
    obtain ⟨edge, edgeMember, rfl⟩ := List.mem_map.1 departing
    exact has edge (Automaton.hasEdge_of_mem_onChar edgeMember)
  | finish =>
    rcases List.mem_append.1 departing with staying | crossing
    · split at staying
      · rw [List.mem_singleton.1 staying]
        exact inKey
      · cases staying
    · obtain ⟨edge, edgeMember, rfl⟩ := List.mem_map.1 crossing
      exact has edge (Automaton.hasEdge_of_mem_edgesAt edgeMember)

/-! ### The loop comes to an end -/

/-- The states that have not been entered. -/
def unentered (states : List StateId) (loop : WorkLoop) : List StateId :=
  states.filter fun state => state ∉ loop.entered

/-- More turns than the loop will take: every state that is not entered yet and every thread that
has not taken the step puts fewer arrivals on the lists than this pays for. -/
def turnsLeft (automaton : Automaton) (states : List StateId) (loop : WorkLoop) : Nat :=
  ((loop.unentered states).length + loop.lists.hungry.length) * (2 * automaton.targets.length + 2) +
    loop.waiting.length

theorem unentered_enter (states : List StateId) (thread : Thread)
    (instructions : List Instruction) (supply : Supply) (normal low : List Arrival) :
    (loop.enter automaton step thread instructions supply normal low).unentered states =
      Closure.withoutState thread.state (loop.unentered states) := by
  rw [unentered, unentered, Closure.withoutState, List.filter_filter]
  apply List.filter_congr
  intro state _
  simp [enter, and_comm]

/-- Whoever gives up one share may put less than a share on the lists. -/
theorem shares_lt {fewer more share added waiting : Nat} (less : fewer < more)
    (paid : added < share + waiting) : fewer * share + added < more * share + waiting := by
  have given := Nat.mul_le_mul_right share less
  rw [Nat.succ_mul] at given
  omega

theorem shares_le {share : Nat} (positive : 0 < share) (states hungry arrivals : Nat) :
    (states + hungry) * share + arrivals ≤ (states + (hungry + arrivals)) * share :=
  calc (states + hungry) * share + arrivals
      ≤ (states + hungry) * share + arrivals * share :=
        Nat.add_le_add_left (Nat.le_mul_of_pos_right _ positive) _
    _ = (states + (hungry + arrivals)) * share := by rw [← Nat.add_mul, Nat.add_assoc]

/-- Every turn is paid for. -/
theorem turnsLeft_lt {states : List StateId} (within : loop.Within source (· ∈ states))
    (turns : Turns automaton step loop next) :
    next.turnsLeft automaton states < loop.turnsLeft automaton states := by
  unfold turnsLeft
  cases turns with
  | skip found visited =>
    rw [waiting_of_nextOf found]
    exact Nat.add_lt_add_left (Nat.lt_succ_self _) _
  | @enter arrival normal low thread instructions supply found unvisited crossed =>
    have state := Arrival.state_of_crossTag crossed
    have known : thread.state ∈ loop.unentered states := by
      rw [state]
      refine List.mem_filter.2 ⟨within.waiting _ ?_, decide_eq_true unvisited⟩
      rw [waiting_of_nextOf found]
      exact List.mem_cons_self ..
    have fewer := Closure.length_withoutState_lt thread.state (loop.unentered states) known
    have edges := automaton.length_freeEdges_le step thread.state
    rw [unentered_enter, (waiting_enter thread ..).length_eq, waiting_of_nextOf found]
    -- The state that is entered gives up its share, and its edges are fewer than that.
    apply shares_lt
    · exact Nat.add_lt_add_right fewer _
    · simp only [List.length_append, List.length_map, List.length_cons]
      omega
  | @feed thread rest normal low lists feeds =>
    have departing := length_departures_le automaton step thread.state
    have arriving : (waiting { loop with lists := ⟨normal, low, rest⟩ }).length ≤
        automaton.targets.length + 1 := by
      rw [← (departures_of_fed feeds).length_eq] at departing
      exact departing
    -- Here it is the thread that gives up its share.
    apply shares_lt
    · rw [lists]
      exact Nat.lt_succ_self _
    · omega

/-! ### The loop does what the step does -/

/-- The result so far, with the states that have not been entered. -/
def closure (states : List StateId) (loop : WorkLoop) : Closure :=
  ⟨loop.unentered states, loop.threads, loop.instructions, loop.supply⟩

/-- What the work lists lead to when the states that may be entered are known. -/
def remainder (automaton : Automaton) (step : Step) (states : List StateId) (loop : WorkLoop) :
    Except Breach (Closure × WorkLists) :=
  WorkLists.run automaton step loop.lists.normal loop.lists.low loop.lists.hungry
    (loop.closure states)

theorem closure_enter {states : List StateId} {arrival : Arrival} {thread : Thread}
    (same : thread.state = arrival.state) (instructions : List Instruction) (supply : Supply)
    (normal low : List Arrival) :
    (loop.enter automaton step thread instructions supply normal low).closure states =
      (loop.closure states).entered automaton arrival thread instructions supply := by
  rw [closure, unentered_enter, Closure.entered,
    ← show thread.state = arrival.thread.state from same]
  rfl

/-- A turn of the loop is a round of the work lists. -/
theorem remainder_eq {states : List StateId} (within : loop.Within source (· ∈ states)) :
    loop.remainder automaton step states =
      match loop.turn automaton step with
      | .error breach => .error breach
      | .ok none => .ok (loop.closure states, loop.lists)
      | .ok (some next) => next.remainder automaton step states := by
  rw [remainder, WorkLists.run.eq_def, turn]
  split
  · rename_i arrival normal low found
    rw [Arrival.next?_eq_nextOf] at found
    rw [Arrival.next?_eq_nextOf, found]
    dsimp only
    have known : arrival.state ∈ states := by
      apply within.waiting
      rw [waiting_of_nextOf found]
      exact List.mem_cons_self ..
    -- The work lists cross off what has been entered; what waits is on their list to begin with.
    have unvisited : arrival.thread.state ∈ (loop.closure states).unvisited ↔
        arrival.state ∉ loop.entered := by
      show arrival.state ∈ loop.unentered states ↔ _
      simp [unentered, known]
    by_cases visited : arrival.state ∈ loop.entered
    · rw [if_neg (fun inside => unvisited.1 inside visited), if_pos visited]
      rfl
    · rw [if_pos (unvisited.2 visited), if_neg visited,
        show (loop.closure states).supply = loop.supply from rfl]
      cases crossed : arrival.crossTag automaton loop.supply with
      | error fault => rfl
      | ok entering =>
        obtain ⟨thread, instructions, supply⟩ := entering
        have same := Arrival.state_of_crossTag crossed
        show _ = WorkLists.run _ _ _ _ _ _
        rw [closure_enter same]
        rfl
  · rename_i missing
    rw [missing]
    dsimp only
    cases waits : loop.lists.hungry with
    | nil =>
      have whole : (⟨loop.lists.normal, loop.lists.low, []⟩ : WorkLists) = loop.lists := by
        rw [← waits]
      exact congrArg (fun lists => Except.ok (loop.closure states, lists)) whole
    | cons thread rest =>
      dsimp only
      cases WorkLists.fed automaton step thread <;> rfl

/-- With enough turns the loop does what the work lists do. -/
theorem run_eq_remainder {states : List StateId}
    (closed : Closed automaton source step (· ∈ states)) (within : loop.Within source (· ∈ states))
    {turns : Nat} (enough : loop.turnsLeft automaton states < turns) :
    (run automaton step turns loop).map (fun final => (final.closure states, final.lists)) =
      loop.remainder automaton step states := by
  induction turns generalizing loop with
  | zero => exact absurd enough (Nat.not_lt_zero _)
  | succ turns ih =>
    rw [remainder_eq within, run]
    cases turned : loop.turn automaton step with
    | error breach => rfl
    | ok outcome =>
      cases outcome with
      | none => rfl
      | some next =>
        have goes := turns_of_turn turned
        have cheaper := turnsLeft_lt within goes
        exact ih (within.turns closed goes) (by omega)

/-- As many turns as a step may take. -/
def turnLimit (automaton : Automaton) (source : Configuration) : Nat :=
  (2 * source.threads.length + automaton.targets.length + 1) * (2 * automaton.targets.length + 2)

theorem turnsLeft_begin (automaton : Automaton) (source : Configuration) (step : Step)
    (supply : Supply) :
    (begin source step supply).turnsLeft automaton (candidates automaton source) <
      turnLimit automaton source := by
  have known : ((begin source step supply).unentered (candidates automaton source)).length ≤
      source.threads.length + automaton.targets.length := by
    refine Nat.le_trans (List.length_filter_le _ _) (Nat.le_of_eq ?_)
    rw [candidates, List.length_append, Configuration.key, List.length_map]
  have waits : (begin source step supply).lists.hungry.length +
      (begin source step supply).waiting.length = source.threads.length := by
    cases step <;> simp [begin, waiting]
  have share : 0 < 2 * automaton.targets.length + 2 := Nat.succ_pos _
  refine Nat.lt_of_le_of_lt (shares_le share _ _ _) ?_
  rw [waits]
  exact Nat.mul_lt_mul_of_pos_right (by omega) share

theorem advance_eq_remainder (automaton : Automaton) (source : Configuration) (step : Step)
    (supply : Supply) :
    WorkLists.advance automaton source step supply .empty =
      ((begin source step supply).remainder automaton step (candidates automaton source)).map
        fun (closure, lists) =>
          ((if closure.threads.isEmpty then none
            else some (.ofThreads closure.threads, closure.instructions), closure.supply),
            lists) := by
  have fresh : (begin source step supply).closure (candidates automaton source) =
      ⟨source.key ++ automaton.targets, [], [], supply⟩ := by
    rw [closure, unentered, List.filter_eq_self.2 fun state _ => by simp [begin]]
    rfl
  rw [WorkLists.advance, if_neg fun different => different rfl, remainder, fresh]
  cases step <;> rfl

/-- The loop comes to its end within the limit, with the result of the step. -/
theorem run_begin {supply later : Supply}
    {outcome : Option (Configuration × List Instruction)}
    (success : Closure.advance automaton source step supply = .ok (outcome, later)) :
    ∃ final : WorkLoop, (∀ turns, turnLimit automaton source ≤ turns →
        run automaton step turns (begin source step supply) = .ok final) ∧
      final.outcome = outcome ∧ final.supply = later := by
  have closed := closed_candidates automaton source step
  have runs := run_eq_remainder closed (within_begin closed supply)
    (turnsLeft_begin automaton source step supply)
  have whole := advance_eq_remainder automaton source step supply
  rw [WorkLists.advance_eq, success, ← runs] at whole
  cases ran : run automaton step (turnLimit automaton source) (begin source step supply) with
  | error breach =>
    rw [ran] at whole
    cases whole
  | ok final =>
    rw [ran] at whole
    obtain ⟨found, issued⟩ := Prod.mk.inj (Prod.mk.inj (Except.ok.inj whole)).1
    exact ⟨final, fun turns enough => run_of_le ran enough, found.symm, issued.symm⟩

end WorkLoop

end TaggedRegex
