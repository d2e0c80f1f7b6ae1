import TaggedRegex.Proofs.Tour.Visit

set_option autoImplicit false

/-!
The visits of a whole step. Each of them has come over a path of the step from one of the threads,
and `advance_eq_visits` says that the step gives the visits on live states and the instructions of
all visits, unless it runs out of names.
-/

namespace TaggedRegex

/-- A path of a step: what the step consumes, then edges that are open without reading. -/
inductive Automaton.Takes (automaton : Automaton) : Step → StateId → List Edge → StateId → Prop
  | start (state : StateId) : automaton.Takes .start state [] state
  | read {state : StateId} {c : Char} {edge : Edge} : edge ∈ automaton.onChar state c →
      automaton.Takes (.char c) state [edge] edge.target
  | stay : automaton.Takes .finish automaton.accept [] automaton.accept
  | ends {state : StateId} {edge : Edge} : edge ∈ automaton.onEnd state →
      automaton.Takes .finish state [edge] edge.target
  | epsilon {step : Step} {source state : StateId} {path : List Edge} {edge : Edge} :
      automaton.Takes step source path state → edge ∈ automaton.onEpsilon state →
      automaton.Takes step source (path ++ [edge]) edge.target
  | atEnd {source state : StateId} {path : List Edge} {edge : Edge} :
      automaton.Takes .finish source path state → edge ∈ automaton.onEnd state →
      automaton.Takes .finish source (path ++ [edge]) edge.target

namespace Automaton.Takes

variable {automaton : Automaton} {step : Step} {source state : StateId} {path : List Edge}

theorem free (takes : automaton.Takes step source path state) {edge : Edge}
    (member : edge ∈ Closure.freeEdges automaton step state) :
    automaton.Takes step source (path ++ [edge]) edge.target := by
  cases step with
  | start => exact takes.epsilon member
  | char c => exact takes.epsilon member
  | finish =>
    rw [Closure.freeEdges, List.mem_mergeSort, List.mem_append] at member
    exact member.elim takes.epsilon takes.atEnd

theorem hasEdge (takes : automaton.Takes step source path state) :
    ∀ edge ∈ path, automaton.HasEdge edge := by
  have concat : ∀ {f : List Edge} {last : Edge}, (∀ edge ∈ f, automaton.HasEdge edge) →
      automaton.HasEdge last → ∀ edge ∈ f ++ [last], automaton.HasEdge edge := by
    intro f last early has edge member
    rcases List.mem_append.1 member with inFront | isLast
    · exact early edge inFront
    · rw [List.mem_singleton.1 isLast]
      exact has
  induction takes with
  | start => exact fun _ member => absurd member List.not_mem_nil
  | read member =>
    exact concat (f := []) (fun _ member => absurd member List.not_mem_nil)
      (hasEdge_of_mem_onChar member)
  | stay => exact fun _ member => absurd member List.not_mem_nil
  | ends member =>
    exact concat (f := []) (fun _ member => absurd member List.not_mem_nil)
      (hasEdge_of_mem_edgesAt member)
  | epsilon _ member ih => exact concat ih (hasEdge_of_mem_edgesAt member)
  | atEnd _ member ih => exact concat ih (hasEdge_of_mem_edgesAt member)

end Automaton.Takes

/-- Where a thread stands when it has consumed what the step consumes. -/
def Thread.departures (automaton : Automaton) (step : Step) (thread : Thread) :
    List Visit × List Visit :=
  let here : Visit := ⟨thread, []⟩
  match step with
  | .start => ([here], [])
  | .char c => ((automaton.onChar thread.state c).map here.follow, [])
  | .finish =>
      ((if thread.state = automaton.accept then [here] else []) ++
          here.followWith (automaton.onEnd thread.state) .normal,
        here.followWith (automaton.onEnd thread.state) .low)

namespace Configuration

/-- At the start all threads wait on one stack; otherwise each takes the step when those before it
are done. -/
def departures (automaton : Automaton) (step : Step) (source : Configuration) :
    List (List Visit × List Visit) :=
  match step with
  | .start => [(source.threads.map fun thread => ⟨thread, []⟩, [])]
  | _ => source.threads.map (Thread.departures automaton step)

/-- All visits of a step. -/
def visits (automaton : Automaton) (step : Step) (source : Configuration) : List Visit :=
  (Visit.terrain (Closure.freeEdges automaton step)).tours (source.departures automaton step)
    (source.key ++ automaton.targets)

end Configuration

namespace Visit

open TaggedRegex.Configuration (visits)

variable {automaton : Automaton} {step : Step} {source : Configuration}

/-- The visit has come over a path of the step from one of the threads. -/
structure Arrives (automaton : Automaton) (step : Step) (source : Configuration)
    (visit : Visit) : Prop where
  origin : visit.origin ∈ source.threads
  takes : automaton.Takes step visit.origin.state visit.path visit.state

/-- The visit has come over one edge at most. -/
structure Begins (automaton : Automaton) (step : Step) (source : Configuration)
    (visit : Visit) : Prop where
  arrives : visit.Arrives automaton step source
  short : visit.before.path = []

theorem Arrives.follow {visit : Visit} (arrives : visit.Arrives automaton step source)
    {edge : Edge} (member : edge ∈ Closure.freeEdges automaton step visit.state) :
    (visit.follow edge).Arrives automaton step source :=
  ⟨arrives.origin, by rw [state_follow]; exact arrives.takes.free member⟩

theorem Arrives.fits {visit : Visit} (arrives : visit.Arrives automaton step source)
    (lengths : ∀ thread ∈ source.threads, thread.histories.length = automaton.tags.length) :
    visit.Fits automaton :=
  ⟨lengths visit.origin arrives.origin, arrives.takes.hasEdge⟩

theorem begins_stay {thread : Thread} (member : thread ∈ source.threads)
    (takes : automaton.Takes step thread.state [] thread.state) :
    Begins automaton step source ⟨thread, []⟩ :=
  ⟨⟨member, takes⟩, rfl⟩

theorem begins_follow {thread : Thread} (member : thread ∈ source.threads) {edge : Edge}
    (takes : automaton.Takes step thread.state [edge] edge.target) :
    (follow ⟨thread, []⟩ edge).Begins automaton step source :=
  ⟨⟨member, takes⟩, rfl⟩

theorem begins_of_mem_departures {both : List Visit × List Visit}
    (member : both ∈ source.departures automaton step) {visit : Visit}
    (inside : visit ∈ both.1 ++ both.2) : visit.Begins automaton step source := by
  cases step with
  | start =>
    rw [List.mem_singleton.1 member, List.append_nil] at inside
    obtain ⟨thread, threadMember, rfl⟩ := List.mem_map.1 inside
    exact begins_stay threadMember (.start thread.state)
  | char c =>
    obtain ⟨thread, threadMember, rfl⟩ := List.mem_map.1 member
    rw [Thread.departures, List.append_nil] at inside
    obtain ⟨edge, edgeMember, rfl⟩ := List.mem_map.1 inside
    exact begins_follow threadMember (.read edgeMember)
  | finish =>
    obtain ⟨thread, threadMember, rfl⟩ := List.mem_map.1 member
    have crossed : ∀ priority, ∀ visit ∈ followWith ⟨thread, []⟩ (automaton.onEnd thread.state)
        priority, visit.Begins automaton .finish source := by
      intro priority visit visitMember
      obtain ⟨edge, edgeMember, rfl⟩ := List.mem_map.1 visitMember
      exact begins_follow threadMember (.ends (List.mem_of_mem_filter edgeMember))
    rw [Thread.departures] at inside
    simp only [List.mem_append] at inside
    rcases inside with (staying | crossing) | crossing
    · split at staying
      · rename_i accepts
        obtain rfl := List.mem_singleton.1 staying
        exact begins_stay threadMember (by rw [accepts]; exact .stay)
      · cases staying
    · exact crossed .normal visit crossing
    · exact crossed .low visit crossing

/-- Every visit of a step begins it or comes after one of the visits before. -/
theorem grown_visits (automaton : Automaton) (step : Step) (source : Configuration) :
    (terrain (Closure.freeEdges automaton step)).Grown (Begins automaton step source)
      (source.visits automaton step) := by
  rw [← List.nil_append (source.visits automaton step)]
  exact Terrain.Grown.nil.tours
    fun both member visit inside => begins_of_mem_departures member inside

theorem arrives_of_grown {visits : List Visit}
    (grown : (terrain (Closure.freeEdges automaton step)).Grown (Begins automaton step source)
      visits) : ∀ visit ∈ visits, visit.Arrives automaton step source := by
  induction grown with
  | nil => exact fun _ member => absurd member List.not_mem_nil
  | enter _ comes ih =>
    intro visit member
    rcases List.mem_append.1 member with early | last
    · exact ih visit early
    · obtain rfl := List.mem_singleton.1 last
      rcases comes with begins | ⟨parent, parentMember, priority, onward⟩
      · exact begins.arrives
      · obtain ⟨edge, edgeMember, rfl⟩ := List.mem_map.1 onward
        exact (ih parent parentMember).follow (List.mem_of_mem_filter edgeMember)

theorem nodup_visits (automaton : Automaton) (step : Step) (source : Configuration) :
    ((source.visits automaton step).map state).Nodup := by
  show ((source.visits automaton step).map (terrain (Closure.freeEdges automaton step)).state).Nodup
  exact Terrain.nodup_tours _ _

end Visit

namespace Closure

open Visit (Names Fits)

variable {automaton : Automaton} {name : StateId → HistoryId} {supply : Supply} {step : Step}

/-- Explorations one after the other make the visits of all their tours. -/
theorem foldlM_explore_visits (tagged : automaton.WellTagged)
    (pairs : List (List Visit × List Visit)) {visits : List Visit} {unvisited : List StateId}
    (fit : ∀ both ∈ pairs, ∀ visit ∈ both.1 ++ both.2, Fits automaton visit)
    (names : Names name supply
      (visits ++ (Visit.terrain (freeEdges automaton step)).tours pairs unvisited)) :
    let terrain := Visit.terrain (freeEdges automaton step)
    let outcome := pairs.foldlM (fun closure both =>
      explore automaton step (both.1.map (Visit.arrival automaton name))
        (both.2.map (Visit.arrival automaton name)) closure)
      (afterVisits automaton name supply unvisited visits)
    outcome = .error .historiesExhausted ∨
      outcome = .ok (afterVisits automaton name supply
        (remaining Visit.state (terrain.tours pairs unvisited) unvisited)
        (visits ++ terrain.tours pairs unvisited)) := by
  induction pairs generalizing visits unvisited with
  | nil =>
    right
    rw [Terrain.tours, remaining_nil, List.append_nil]
    rfl
  | cons both rest ih =>
    rw [Terrain.tours, ← List.append_assoc] at names
    have first := explore_visits tagged (fit both (List.mem_cons_self ..)) names.of_append
    dsimp only at first ⊢
    rw [List.foldlM_cons]
    rcases first with exhausted | explored
    · left
      rw [exhausted]
      rfl
    · rw [explored, Terrain.tours, ← List.append_assoc, remaining_append]
      exact ih (fun other member => fit other (List.mem_cons_of_mem both member)) names

theorem consume_eq_explore (closure : Closure) (thread : Thread) :
    consume automaton step closure thread =
      explore automaton step
        ((thread.departures automaton step).1.map (Visit.arrival automaton name))
        ((thread.departures automaton step).2.map (Visit.arrival automaton name)) closure := by
  cases step with
  | start => rfl
  | char c =>
    rw [consume, Thread.departures, List.map_map]
    rfl
  | finish =>
    rw [consume, Thread.departures, List.map_append, Visit.arrivals_followWith,
      Visit.arrivals_followWith]
    split <;> rfl

theorem foldlM_consume_eq_explore (threads : List Thread) (closure : Closure) :
    threads.foldlM (consume automaton step) closure =
      (threads.map (Thread.departures automaton step)).foldlM (fun closure both =>
        explore automaton step (both.1.map (Visit.arrival automaton name))
          (both.2.map (Visit.arrival automaton name)) closure) closure := by
  have alike : consume automaton step = fun closure thread =>
      explore automaton step
        ((thread.departures automaton step).1.map (Visit.arrival automaton name))
        ((thread.departures automaton step).2.map (Visit.arrival automaton name)) closure := by
    funext closure thread
    exact consume_eq_explore closure thread
  rw [List.foldlM_map, alike]

/-- A step makes all its visits, or runs out of names. -/
theorem advance_eq_visits (tagged : automaton.WellTagged) {source : Configuration}
    (lengths : ∀ thread ∈ source.threads, thread.histories.length = automaton.tags.length)
    (step : Step) (supply : Supply) :
    let visits := source.visits automaton step
    let name := Visit.naming supply visits
    let live := visits.filter fun visit => automaton.isLive visit.state
    advance automaton source step supply = .error .historiesExhausted ∨
      advance automaton source step supply =
        .ok (if live.isEmpty then none
          else some (⟨live.map (Visit.thread automaton name)⟩,
            visits.flatMap (Visit.instructions automaton name)),
          ⟨supply.issued + visits.countP Visit.crosses⟩) := by
  intro visits name live
  have distinct := Visit.nodup_visits automaton step source
  have names : Names name supply visits := Visit.names_naming supply distinct
  have unfolded : advance automaton source step supply =
      ((source.departures automaton step).foldlM (fun closure both =>
        explore automaton step (both.1.map (Visit.arrival automaton name))
          (both.2.map (Visit.arrival automaton name)) closure)
        (afterVisits automaton name supply (source.key ++ automaton.targets) [])).map
      fun closure => (if closure.threads.isEmpty then none
        else some (.ofThreads closure.threads, closure.instructions), closure.supply) := by
    cases step with
    | start =>
      rw [Configuration.departures, List.foldlM_cons]
      simp only [List.foldlM_nil, bind_pure, List.map_map]
      rfl
    | char c => exact congrArg (Except.map _) (foldlM_consume_eq_explore source.threads _)
    | finish => exact congrArg (Except.map _) (foldlM_consume_eq_explore source.threads _)
  rw [unfolded]
  have fit : ∀ both ∈ source.departures automaton step, ∀ visit ∈ both.1 ++ both.2,
      Fits automaton visit :=
    fun both member visit inside =>
      (Visit.begins_of_mem_departures member inside).arrives.fits lengths
  have outcome := foldlM_explore_visits tagged (source.departures automaton step) fit
    (show Names name supply ([] ++ visits) from names)
  rcases outcome with exhausted | explored
  · left
    rw [exhausted]
    rfl
  · right
    rw [explored]
    have liveDistinct : ((live.map (Visit.thread automaton name)).map Thread.state).Nodup := by
      rw [List.map_map]
      exact distinct.sublist (List.filter_sublist.map Visit.state)
    rw [List.nil_append]
    show Except.ok (if (live.map (Visit.thread automaton name)).isEmpty then none
      else some (Configuration.ofThreads (live.map (Visit.thread automaton name)), _), _) = _
    rw [Configuration.ofThreads_eq _ liveDistinct, List.isEmpty_map]
    rfl

end Closure

end TaggedRegex
