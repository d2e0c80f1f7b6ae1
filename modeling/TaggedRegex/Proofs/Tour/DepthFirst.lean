import TaggedRegex.Proofs.Automaton.Anchored
import TaggedRegex.Proofs.Tour.Tracking

set_option autoImplicit false

/-!
In the automaton of an expression a step is a depth-first search. Low edges wait until all normal
ones have been followed, wherever they begin; but there is at most one normal edge out of a state,
so nothing is overtaken that way.
-/

namespace TaggedRegex

variable {automaton : Automaton} {step : Step} {source : Configuration}

/-- What comes after a visit: the epsilon edges in their order, and at the end of the input among
them those that wait for it. -/
def Visit.onward (automaton : Automaton) (step : Step) (visit : Visit) : List Visit :=
  let edges := match step with
    | .finish => automaton.onEpsilon visit.state ++ automaton.onEnd visit.state
    | _ => automaton.onEpsilon visit.state
  (edges.mergeSort Edge.notAfter).map visit.follow

/-- Where a thread arrives when it has consumed what the step consumes: behind the edges that read
the character or wait for the end, or where it is, if nothing is consumed or it accepts. -/
def Thread.arrivals (automaton : Automaton) (step : Step) (thread : Thread) : List Visit :=
  let here : Visit := ⟨thread, []⟩
  match step with
  | .start => [here]
  | .char c => (automaton.onChar thread.state c).map here.follow
  | .finish =>
      if thread.state = automaton.accept then [here]
      else (automaton.onEnd thread.state).map here.follow

/-- The visits of plain depth-first search from the threads in their order. -/
def Configuration.search (automaton : Automaton) (step : Step) (source : Configuration) :
    List Visit :=
  depthFirst Visit.state (Visit.onward automaton step) (source.key ++ automaton.targets)
    (source.threads.flatMap (Thread.arrivals automaton step))

/-- No path of a step leaves the states that are searched. -/
theorem Automaton.Takes.mem_searched {origin : Thread} (member : origin ∈ source.threads)
    {path : List Edge} {state : StateId}
    (takes : automaton.Takes step origin.state path state) :
    state ∈ source.key ++ automaton.targets := by
  have target : ∀ {edge : Edge}, automaton.HasEdge edge →
      edge.target ∈ source.key ++ automaton.targets :=
    fun has => List.mem_append_right _ (Automaton.target_mem_targets has)
  have here : origin.state ∈ source.key ++ automaton.targets :=
    List.mem_append_left _ (List.mem_map_of_mem member)
  generalize origin.state = first at takes here
  cases takes with
  | start => exact here
  | read edge => exact target (Automaton.hasEdge_of_mem_onChar edge)
  | stay => exact here
  | ends edge => exact target (Automaton.hasEdge_of_mem_edgesAt edge)
  | epsilon _ edge => exact target (Automaton.hasEdge_of_mem_edgesAt edge)
  | atEnd _ edge => exact target (Automaton.hasEdge_of_mem_edgesAt edge)

namespace Automaton.Orderly

theorem mergeSort_of_sorted {edges : List Edge} (sorted : edges.Pairwise Edge.Before) :
    edges.mergeSort Edge.notAfter = edges := by
  apply List.mergeSort_of_pairwise
  apply sorted.imp
  intro a b before
  have total := Edge.notAfter_total a b
  rw [show b.notAfter a = false from before, Bool.or_false] at total
  exact total

theorem followWith_append {edges : List Edge} (narrow : Survey.Narrow edges) (visit : Visit) :
    visit.followWith edges .normal ++ visit.followWith edges .low = edges.map visit.follow := by
  rw [Visit.followWith, Visit.followWith, ← List.map_append, Survey.filter_priority_append narrow.2]

theorem length_followWith {edges : List Edge} (narrow : Survey.Narrow edges) (visit : Visit) :
    (visit.followWith edges .normal).length ≤ 1 := by
  rw [Visit.followWith, List.length_map]
  exact narrow.1

theorem narrow_terrain (orderly : automaton.Orderly) (step : Step) :
    (Visit.terrain (Closure.freeEdges automaton step)).Narrow (Visit.onward automaton step) := by
  intro visit
  have narrow := orderly.narrow step visit.state
  refine ⟨length_followWith narrow visit, (followWith_append narrow visit).trans ?_⟩
  cases step with
  | start => exact congrArg (List.map visit.follow) (mergeSort_of_sorted narrow.2).symm
  | char c => exact congrArg (List.map visit.follow) (mergeSort_of_sorted narrow.2).symm
  | finish => rfl

/-- What one thread reaches is found by depth-first search. -/
theorem tour_departures (orderly : automaton.Orderly) (step : Step) (thread : Thread)
    (unvisited : List StateId) :
    (Visit.terrain (Closure.freeEdges automaton step)).tour (thread.departures automaton step).1
        (thread.departures automaton step).2 unvisited =
      depthFirst Visit.state (Visit.onward automaton step) unvisited
        (thread.arrivals automaton step) := by
  have narrow := orderly.narrow_terrain step
  cases step with
  | start => exact Terrain.tour_eq_depthFirst narrow (Nat.le_refl 1)
  | char c =>
    -- Several edges may read the character and go on the normal stack, but they lead to one state.
    obtain ⟨target, same⟩ := orderly.charsTarget thread.state c
    have together : ∀ visit ∈ (automaton.onChar thread.state c).map (Visit.follow ⟨thread, []⟩),
        visit.state = target := by
      intro visit member
      obtain ⟨edge, edgeMember, rfl⟩ := List.mem_map.1 member
      rw [Visit.state_follow]
      exact same edge edgeMember
    exact Terrain.tour_eq_depthFirst_of_target narrow together
  | finish =>
    have narrowEnd := orderly.narrowEnd thread.state
    by_cases accepts : thread.state = automaton.accept
    · have stops : automaton.onEnd thread.state = [] := by rw [accepts, orderly.acceptStops]
      rw [Thread.departures, Thread.arrivals, if_pos accepts, if_pos accepts, stops]
      exact Terrain.tour_eq_depthFirst narrow (Nat.le_refl 1)
    · rw [Thread.departures, Thread.arrivals, if_neg accepts, if_neg accepts, List.nil_append,
        ← followWith_append narrowEnd]
      exact Terrain.tour_eq_depthFirst narrow (length_followWith narrowEnd _)

/-- All visits of a step are those of depth-first search. -/
theorem visits_eq_search (orderly : automaton.Orderly)
    (single : step = .start → ∃ thread, source.threads = [thread]) :
    source.visits automaton step = source.search automaton step := by
  have oneByOne : source.departures automaton step =
      source.threads.map (Thread.departures automaton step) := by
    cases step with
    | start =>
      obtain ⟨thread, alone⟩ := single rfl
      rw [Configuration.departures, alone]
      rfl
    | char c => rfl
    | finish => rfl
  rw [Configuration.visits, oneByOne]
  exact Terrain.tours_eq_depthFirst fun thread _ unvisited =>
    orderly.tour_departures step thread unvisited

end Automaton.Orderly

/-- In the automaton of an expression a step that does not run out of names is a depth-first search:
the threads that it gives are the visits on live states, in the order in which the search makes
them, each with the histories that the tags on its path have left it. -/
theorem Closure.advance_depth_first (regex : Regex) (anchor : Anchor) (automaton : Automaton)
    (compiled : regex.automaton anchor = .ok automaton) (source : Configuration) (step : Step)
    (supply : Supply)
    (lengths : ∀ thread ∈ source.threads, thread.histories.length = automaton.tags.length)
    (single : step = .start → ∃ thread, source.threads = [thread])
    (enough : advance automaton source step supply ≠ .error .historiesExhausted) :
    let found := source.search automaton step
    let name := Visit.naming supply found
    let live := found.filter fun visit => automaton.isLive visit.state
    let instructions := found.flatMap (Visit.instructions automaton name)
    (∃ later, advance automaton source step supply =
      .ok (if live.isEmpty then none
        else some (⟨live.map (Visit.thread automaton name)⟩, instructions), later)) ∧
    (∀ visit ∈ found, visit.origin ∈ source.threads ∧
      automaton.Takes step visit.origin.state visit.path visit.state) ∧
    (∀ origin ∈ source.threads, ∀ path state, automaton.Takes step origin.state path state →
      state ∈ source.key ++ automaton.targets) ∧
    ∀ (position : Int) (memory : Memory), source.Stocked automaton supply memory →
      ∃ after, memory.performAll position instructions = .ok after ∧
        ∀ visit ∈ found, ∀ (slot : Nat) (tag : Tag), automaton.tags[slot]? = some tag →
          ∃ old new values, visit.origin.histories[slot]? = some old ∧
            (visit.thread automaton name).histories[slot]? = some new ∧
            memory.committed old = .ok values ∧
            after.committed new = .ok (Edge.marks position tag visit.path ++ values) := by
  obtain ⟨orderly, tagged⟩ : automaton.Orderly ∧ automaton.WellTagged := by
    rcases regex.automaton_spec anchor with exhausted | ⟨other, connections, built, lays, tagged, -⟩
    · rw [exhausted] at compiled
      cases compiled
    · obtain rfl := Except.ok.inj (built.symm.trans compiled)
      exact ⟨lays.orderly, tagged⟩
  have outcome := advance_eq_visits tagged lengths step supply
  have grown := Visit.grown_visits automaton step source
  have names := Visit.names_naming supply (Visit.nodup_visits automaton step source)
  rw [orderly.visits_eq_search single] at outcome grown names
  intro found name live instructions
  refine ⟨?_, ?_, ?_, ?_⟩
  · rcases outcome with exhausted | success
    · exact absurd exhausted enough
    · exact ⟨_, success⟩
  · intro visit member
    have arrives := Visit.arrives_of_grown grown visit member
    exact ⟨arrives.origin, arrives.takes⟩
  · exact fun origin member path state takes => takes.mem_searched member
  · intro position memory stocked
    obtain ⟨after, runs, -, settled⟩ := Visit.performAll_visits tagged grown stocked names
    refine ⟨after, runs, ?_⟩
    intro visit member slot tag tagAt
    obtain ⟨old, new, values, oldAt, newAt, held, holds⟩ :=
      (settled visit member).holds slot tag tagAt
    exact ⟨old, new, values, oldAt, newAt, Memory.committed_of_holds held,
      Memory.committed_of_holds holds⟩

/-- A repeated group beside an alternative that waits for the end of the input. -/
theorem Closure.advance_depth_first_alternatives :
    ∃ automaton,
      Regex.automaton (.alt [.rep .star .greedy (.group (.lit 'a')), .atEnd]) .full =
        .ok automaton ∧
      let source : Configuration := ⟨[⟨⟨0⟩, [⟨0⟩, ⟨1⟩, ⟨1⟩, ⟨2⟩]⟩]⟩
      let found := source.search automaton .start
      let name := Visit.naming ⟨3⟩ found
      let live := found.filter fun visit => automaton.isLive visit.state
      advance automaton source .start ⟨3⟩ =
        .ok (some (⟨live.map (Visit.thread automaton name)⟩,
          found.flatMap (Visit.instructions automaton name)), ⟨6⟩) ∧
      live.map (Visit.thread automaton name) =
        [⟨⟨8⟩, [⟨3⟩, ⟨1⟩, ⟨4⟩, ⟨2⟩]⟩, ⟨⟨1⟩, [⟨3⟩, ⟨5⟩, ⟨1⟩, ⟨2⟩]⟩,
          ⟨⟨10⟩, [⟨3⟩, ⟨1⟩, ⟨1⟩, ⟨2⟩]⟩] := by
  have facts : (Regex.automaton (.alt [.rep .star .greedy (.group (.lit 'a')), .atEnd]) .full).map
      (fun automaton => (automaton.tags.length,
        advance automaton ⟨[⟨⟨0⟩, [⟨0⟩, ⟨1⟩, ⟨1⟩, ⟨2⟩]⟩]⟩ .start ⟨3⟩)) =
      .ok (4, .ok (some (⟨[⟨⟨8⟩, [⟨3⟩, ⟨1⟩, ⟨4⟩, ⟨2⟩]⟩, ⟨⟨1⟩, [⟨3⟩, ⟨5⟩, ⟨1⟩, ⟨2⟩]⟩,
          ⟨⟨10⟩, [⟨3⟩, ⟨1⟩, ⟨1⟩, ⟨2⟩]⟩]⟩,
        [.copy ⟨3⟩ ⟨0⟩, .set ⟨3⟩ 1, .commitStart ⟨3⟩, .copy ⟨4⟩ ⟨1⟩, .set ⟨4⟩ 1, .commitStart ⟨4⟩,
          .copy ⟨5⟩ ⟨1⟩, .set ⟨5⟩ 0, .commitEnd ⟨5⟩]), ⟨6⟩)) := by
    cbv
  obtain ⟨automaton, compiled, both⟩ := Fault.of_map_eq_ok facts
  obtain ⟨four, success⟩ := Prod.mk.inj both
  obtain ⟨_, found⟩ := (advance_depth_first _ .full automaton compiled
    ⟨[⟨⟨0⟩, [⟨0⟩, ⟨1⟩, ⟨1⟩, ⟨2⟩]⟩]⟩ .start ⟨3⟩ (by
      intro thread member
      rw [List.mem_singleton.1 member, four]
      rfl) (fun _ => ⟨_, rfl⟩) (Fault.ne_error_of_isOk (by rw [success]; rfl) _)).1
  obtain ⟨reached, rfl⟩ := Prod.mk.inj (Except.ok.inj (success.symm.trans found))
  refine ⟨automaton, compiled, ?_⟩
  split at reached
  · cases reached
  · rename_i nonempty
    obtain ⟨target, -⟩ := Prod.mk.inj (Option.some.inj reached)
    exact ⟨by rw [found, if_neg nonempty], (Configuration.mk.inj target).symm⟩

end TaggedRegex
