import TaggedRegex.Proofs.Trail.Completion
import TaggedRegex.Proofs.Trail.LeastRun

set_option autoImplicit false

/-!
Exploration of an arbitrary automaton, whatever its priorities and cycles. Every walker that gets in
has followed a path, and whatever state a path leads to is entered by some walker. So somebody wins
exactly if a path reads the whole input, and the trail of the winner is such a path.
-/

namespace TaggedRegex

namespace Walker

theorem mem_of_next? {normal low normal' low' : List Walker} {walker : Walker}
    (found : next? normal low = some (walker, normal', low')) (other : Walker) :
    other ∈ normal ++ low ↔ other = walker ∨ other ∈ normal' ++ low' := by
  cases normal with
  | nil =>
    cases low with
    | nil => cases found
    | cons first rest =>
      cases found
      simp
  | cons first rest =>
    cases found
    simp

/-- What waits once the edges of a walker have taken its place. -/
theorem mem_followed (consumed : Nat) (walker : Walker) (edges : List Edge)
    (normal low : List Walker) (other : Walker) :
    other ∈ (walker.followWith consumed edges .normal ++ normal) ++
        (walker.followWith consumed edges .low ++ low) ↔
      (∃ edge ∈ edges, walker.follow consumed edge = other) ∨ other ∈ normal ++ low := by
  have byPriority : ∀ edge : Edge, edge.priority = .normal ∨ edge.priority = .low := by
    intro edge
    cases edge.priority
    · exact Or.inl rfl
    · exact Or.inr rfl
  simp only [followWith, List.mem_append, List.mem_map, List.mem_filter, decide_eq_true_eq]
  constructor
  · rintro ((⟨edge, ⟨member, -⟩, same⟩ | later) | (⟨edge, ⟨member, -⟩, same⟩ | later))
    · exact Or.inl ⟨edge, member, same⟩
    · exact Or.inr (Or.inl later)
    · exact Or.inl ⟨edge, member, same⟩
    · exact Or.inr (Or.inr later)
  · rintro (⟨edge, member, same⟩ | later | later)
    · obtain normal | low := byPriority edge
      · exact Or.inl (Or.inl ⟨edge, ⟨member, normal⟩, same⟩)
      · exact Or.inr (Or.inl ⟨edge, ⟨member, low⟩, same⟩)
    · exact Or.inl (Or.inr later)
    · exact Or.inr (Or.inr later)

end Walker

namespace Survey

variable {free : StateId → List Edge} {consumed : Nat} {normal low : List Walker}
  {survey : Survey}

/-- What following an edge keeps holds of all walkers that get in. -/
theorem explore_keeps {promise : Walker → Prop}
    (kept : ∀ walker, promise walker → ∀ edge ∈ free walker.state,
      promise (walker.follow consumed edge))
    (waiting : ∀ walker ∈ normal ++ low, promise walker)
    (before : ∀ walker ∈ survey.entered, promise walker) :
    ∀ walker ∈ (explore free consumed normal low survey).entered, promise walker := by
  fun_induction explore free consumed normal low survey with
  | case1 normal low survey found => exact before
  | case2 normal low survey walker normal' low' found unvisited ih =>
    have here : promise walker := waiting walker ((Walker.mem_of_next? found _).2 (Or.inl rfl))
    apply ih
    · intro other member
      obtain ⟨edge, edgeMember, rfl⟩ | later := (Walker.mem_followed ..).1 member
      · exact kept walker here edge edgeMember
      · exact waiting other ((Walker.mem_of_next? found _).2 (Or.inr later))
    · intro other member
      obtain old | new := List.mem_append.1 member
      · exact before other old
      · rw [List.mem_singleton.1 new]
        exact here
  | case3 normal low survey walker normal' low' found visited ih =>
    exact ih (fun other later =>
      waiting other ((Walker.mem_of_next? found _).2 (Or.inr later))) before

/-- Some walker has entered the state. -/
def Reached (survey : Survey) (state : StateId) : Prop :=
  ∃ walker ∈ survey.entered, walker.state = state

/-- The state is waiting to be entered, or has been. -/
def Known (survey : Survey) (state : StateId) : Prop :=
  state ∈ survey.unvisited ∨ survey.Reached state

/-- All edges lead to known states, and those out of an entered state to an entered one or to one on
which a walker waits. -/
structure Covers (free : StateId → List Edge) (survey : Survey) (waiting : List Walker) :
    Prop where
  known : ∀ walker ∈ waiting, survey.Known walker.state
  targets : ∀ state, ∀ edge ∈ free state, survey.Known edge.target
  closed : ∀ walker ∈ survey.entered, ∀ edge ∈ free walker.state,
    survey.Reached edge.target ∨ ∃ other ∈ waiting, other.state = edge.target

theorem Reached.enter {state : StateId} (reached : survey.Reached state) (walker : Walker) :
    (survey.enter walker).Reached state := by
  obtain ⟨found, member, same⟩ := reached
  exact ⟨found, List.mem_append_left _ member, same⟩

theorem reached_enter (survey : Survey) (walker : Walker) :
    (survey.enter walker).Reached walker.state :=
  ⟨walker, List.mem_append_right _ (List.mem_singleton_self walker), rfl⟩

theorem Known.enter {state : StateId} (known : survey.Known state) (walker : Walker) :
    (survey.enter walker).Known state := by
  obtain unvisited | reached := known
  · by_cases here : state = walker.state
    · rw [here]
      exact Or.inr (reached_enter survey walker)
    · exact Or.inl ((mem_withoutState ..).2 ⟨unvisited, here⟩)
  · exact Or.inr (reached.enter walker)

/-- Entering a state turns its edges into waiting walkers. -/
theorem Covers.enter {walker : Walker} {normal' low' : List Walker}
    (covers : Covers free survey (normal ++ low))
    (found : Walker.next? normal low = some (walker, normal', low')) :
    Covers free (survey.enter walker)
      ((walker.followWith consumed (free walker.state) .normal ++ normal') ++
        (walker.followWith consumed (free walker.state) .low ++ low')) := by
  have follows : ∀ edge ∈ free walker.state, ∃ other ∈
      (walker.followWith consumed (free walker.state) .normal ++ normal') ++
        (walker.followWith consumed (free walker.state) .low ++ low'),
      other.state = edge.target :=
    fun edge member => ⟨_, (Walker.mem_followed ..).2 (Or.inl ⟨edge, member, rfl⟩), rfl⟩
  refine ⟨?_, fun state edge member => (covers.targets state edge member).enter walker, ?_⟩
  · intro other member
    obtain ⟨edge, edgeMember, rfl⟩ | later := (Walker.mem_followed ..).1 member
    · exact (covers.targets walker.state edge edgeMember).enter walker
    · exact (covers.known other ((Walker.mem_of_next? found _).2 (Or.inr later))).enter walker
  · intro entered member edge edgeMember
    obtain old | new := List.mem_append.1 member
    · obtain reached | ⟨other, waiting, same⟩ := covers.closed entered old edge edgeMember
      · exact Or.inl (reached.enter walker)
      · obtain rfl | later := (Walker.mem_of_next? found other).1 waiting
        · rw [← same]
          exact Or.inl (reached_enter survey other)
        · exact Or.inr ⟨other, (Walker.mem_followed ..).2 (Or.inr later), same⟩
    · rw [List.mem_singleton.1 new] at edgeMember
      exact Or.inr (follows edge edgeMember)

/-- A walker on a state that has been entered is not needed. -/
theorem Covers.skip {walker : Walker} {normal' low' : List Walker}
    (covers : Covers free survey (normal ++ low))
    (found : Walker.next? normal low = some (walker, normal', low'))
    (reached : survey.Reached walker.state) : Covers free survey (normal' ++ low') := by
  refine ⟨fun other later => covers.known other ((Walker.mem_of_next? found _).2 (Or.inr later)),
    covers.targets, ?_⟩
  intro entered member edge edgeMember
  obtain old | ⟨other, waiting, same⟩ := covers.closed entered member edge edgeMember
  · exact Or.inl old
  · obtain rfl | later := (Walker.mem_of_next? found other).1 waiting
    · rw [← same]
      exact Or.inl reached
    · exact Or.inr ⟨other, later, same⟩

/-- What is known stays known, and what has been reached stays reached. -/
structure Grows (survey later : Survey) : Prop where
  reached : ∀ state, survey.Reached state → later.Reached state
  known : ∀ state, survey.Known state → later.Known state

theorem Grows.refl (survey : Survey) : survey.Grows survey :=
  ⟨fun _ reached => reached, fun _ known => known⟩

theorem Grows.trans {middle later : Survey} (early : survey.Grows middle)
    (late : middle.Grows later) : survey.Grows later :=
  ⟨fun state reached => late.reached state (early.reached state reached),
    fun state known => late.known state (early.known state known)⟩

theorem grows_enter (survey : Survey) (walker : Walker) : survey.Grows (survey.enter walker) :=
  ⟨fun _ reached => reached.enter walker, fun _ known => known.enter walker⟩

/-- When nobody waits any more, every state on which somebody waited has been entered, and no edge
leads out of the entered states. -/
theorem explore_covers (consumed : Nat) (covers : Covers free survey (normal ++ low)) :
    Covers free (explore free consumed normal low survey) [] ∧
      survey.Grows (explore free consumed normal low survey) ∧
      ∀ walker ∈ normal ++ low,
        (explore free consumed normal low survey).Reached walker.state := by
  fun_induction explore free consumed normal low survey with
  | case1 normal low survey found =>
    have empty : normal ++ low = [] := by
      cases normal with
      | nil =>
        cases low with
        | nil => rfl
        | cons first rest => cases found
      | cons first rest => cases found
    rw [empty] at covers ⊢
    exact ⟨covers, .refl survey, fun _ member => absurd member List.not_mem_nil⟩
  | case2 normal low survey walker normal' low' found unvisited ih =>
    obtain ⟨done, grows, all⟩ := ih (covers.enter found)
    refine ⟨done, (grows_enter survey walker).trans grows, ?_⟩
    intro other member
    obtain rfl | later := (Walker.mem_of_next? found other).1 member
    · exact grows.reached _ (reached_enter survey other)
    · exact all other ((Walker.mem_followed ..).2 (Or.inr later))
  | case3 normal low survey walker normal' low' found visited ih =>
    have reached : survey.Reached walker.state :=
      (covers.known walker ((Walker.mem_of_next? found _).2 (Or.inl rfl))).resolve_left visited
    obtain ⟨done, grows, all⟩ := ih (covers.skip found reached)
    refine ⟨done, grows, ?_⟩
    intro other member
    obtain rfl | later := (Walker.mem_of_next? found other).1 member
    · exact grows.reached _ reached
    · exact all other later

/-- A path out of an entered state enters states only. -/
theorem Covers.reached_of_glides (covers : Covers free survey []) {source target : StateId}
    {glide : Trail} {passed : Nat} (reached : survey.Reached source)
    (glides : Glides free passed source glide target) : survey.Reached target := by
  induction glides with
  | stay => exact reached
  | @cross source target edge glide member _ ih =>
    obtain ⟨walker, entered, rfl⟩ := reached
    obtain next | ⟨other, waiting, -⟩ := covers.closed walker entered edge member
    · exact ih next
    · cases waiting

end Survey

namespace Walker

variable {automaton : Automaton} {step : Step} {consumed : Nat} {walkers : List Walker}

/-- When a walker takes a step, the exploration begins wherever it arrives. -/
theorem exists_consume_eq_explore (automaton : Automaton) (step : Step) (consumed : Nat)
    (survey : Survey) (walker : Walker) :
    ∃ normal low, survey.consume automaton step consumed walker =
        Survey.explore (Closure.freeEdges automaton step) consumed normal low survey ∧
      ∀ other, other ∈ normal ++ low ↔ other ∈ walker.arrivals automaton step consumed := by
  cases step with
  | start => exact ⟨_, _, rfl, fun other => by rw [List.append_nil]; rfl⟩
  | char c => exact ⟨_, _, rfl, fun other => by rw [List.append_nil]; rfl⟩
  | finish =>
    refine ⟨_, _, rfl, fun other => ?_⟩
    have followed := mem_followed consumed walker (automaton.onEnd walker.state) [] [] other
    simp only [List.append_nil, List.not_mem_nil, or_false] at followed
    rw [List.append_assoc, List.mem_append, followed, arrivals, List.mem_append, List.mem_map]

/-- What holds wherever the walkers arrive, and is kept by following an edge, holds after a step. -/
theorem advance_keeps (promise : Walker → Prop)
    (kept : ∀ walker, promise walker → ∀ edge ∈ Closure.freeEdges automaton step walker.state,
      promise (walker.follow consumed edge))
    (arrive : ∀ walker ∈ walkers, ∀ arrival ∈ walker.arrivals automaton step consumed,
      promise arrival) :
    ∀ walker ∈ advance automaton step consumed walkers, promise walker := by
  suffices folded : ∀ survey : Survey, (∀ walker ∈ survey.entered, promise walker) →
      ∀ walker ∈ (walkers.foldl (Survey.consume automaton step consumed) survey).entered,
        promise walker by
    intro walker member
    exact folded _ (fun _ none => absurd none List.not_mem_nil) walker (mem_live.1 member).1
  induction walkers with
  | nil => exact fun survey before => before
  | cons walker rest ih =>
    intro survey before
    rw [List.foldl_cons]
    apply ih fun other member => arrive other (List.mem_cons_of_mem _ member)
    obtain ⟨normal, low, explores, same⟩ :=
      exists_consume_eq_explore automaton step consumed survey walker
    rw [explores]
    apply Survey.explore_keeps kept ?_ before
    intro arrival member
    exact arrive walker (List.mem_cons_self ..) arrival ((same arrival).1 member)

/-- Where a walker arrives is known from the beginning. -/
theorem known_arrival {walker arrival : Walker} (walkerMember : walker ∈ walkers)
    (member : arrival ∈ walker.arrivals automaton step consumed) :
    (unexplored automaton walkers).Known arrival.state := by
  have stays : walker.state ∈ (unexplored automaton walkers).unvisited :=
    List.mem_append_left _ (List.mem_map_of_mem walkerMember)
  have crosses : ∀ edge, automaton.HasEdge edge →
      edge.target ∈ (unexplored automaton walkers).unvisited :=
    fun edge has => List.mem_append_right _ (Automaton.target_mem_targets has)
  left
  cases step with
  | start =>
    rw [List.mem_singleton.1 member]
    exact stays
  | char c =>
    obtain ⟨edge, edgeMember, rfl⟩ := List.mem_map.1 member
    exact crosses edge (Automaton.hasEdge_of_mem_onChar edgeMember)
  | finish =>
    obtain staying | crossing := List.mem_append.1 member
    · split at staying
      · rw [List.mem_singleton.1 staying]
        exact stays
      · cases staying
    · obtain ⟨edge, edgeMember, rfl⟩ := List.mem_map.1 crossing
      exact crosses edge (Automaton.hasEdge_of_mem_edgesAt edgeMember)

/-- Once all walkers have taken the step, everywhere they arrive has been entered. -/
theorem foldl_consume_covers (rest : List Walker) {survey : Survey}
    (covers : Survey.Covers (Closure.freeEdges automaton step) survey [])
    (known : ∀ walker ∈ rest, ∀ arrival ∈ walker.arrivals automaton step consumed,
      survey.Known arrival.state) :
    let later := rest.foldl (Survey.consume automaton step consumed) survey
    Survey.Covers (Closure.freeEdges automaton step) later [] ∧ survey.Grows later ∧
      ∀ walker ∈ rest, ∀ arrival ∈ walker.arrivals automaton step consumed,
        later.Reached arrival.state := by
  induction rest generalizing survey with
  | nil => exact ⟨covers, .refl survey, fun _ member => absurd member List.not_mem_nil⟩
  | cons walker rest ih =>
    obtain ⟨normal, low, explores, same⟩ :=
      exists_consume_eq_explore automaton step consumed survey walker
    have begins : Survey.Covers (Closure.freeEdges automaton step) survey (normal ++ low) := by
      refine ⟨fun arrival member => ?_, covers.targets, fun found member edge edgeMember => ?_⟩
      · exact known walker (List.mem_cons_self ..) arrival ((same arrival).1 member)
      · obtain reached | ⟨other, none, -⟩ := covers.closed found member edge edgeMember
        · exact Or.inl reached
        · cases none
    obtain ⟨explored, grows, all⟩ := Survey.explore_covers consumed begins
    rw [← explores] at explored grows all
    obtain ⟨done, growsOn, others⟩ := ih explored fun other member arrival arrives =>
      grows.known _ (known other (List.mem_cons_of_mem _ member) arrival arrives)
    refine ⟨done, grows.trans growsOn, ?_⟩
    intro other member arrival arrives
    obtain rfl | later := List.mem_cons.1 member
    · exact growsOn.reached _ (all arrival ((same arrival).2 arrives))
    · exact others other later arrival arrives

/-- Whatever live state a path leads to from where a walker arrives, some walker stands there after
the step. -/
theorem exists_mem_advance {walker arrival : Walker} (member : walker ∈ walkers)
    (arrives : arrival ∈ walker.arrivals automaton step consumed) {glide : Trail}
    {target : StateId}
    (glides : Glides (Closure.freeEdges automaton step) consumed arrival.state glide target)
    (live : automaton.isLive target = true) :
    ∃ found ∈ advance automaton step consumed walkers, found.state = target := by
  have begins : Survey.Covers (Closure.freeEdges automaton step) (unexplored automaton walkers)
      [] := by
    refine ⟨fun _ none => absurd none List.not_mem_nil, fun state edge edgeMember => Or.inl ?_,
      fun _ none => absurd none List.not_mem_nil⟩
    apply List.mem_append_right
    exact Automaton.target_mem_targets (Automaton.hasEdge_of_mem_freeEdges edgeMember)
  obtain ⟨done, -, reached⟩ := foldl_consume_covers walkers begins
    fun other otherMember arrival => known_arrival otherMember
  obtain ⟨found, entered, rfl⟩ := done.reached_of_glides (reached walker member arrival arrives)
    glides
  exact ⟨found, mem_live.2 ⟨entered, live⟩, rfl⟩

end Walker

end TaggedRegex
