import TaggedRegex.Proofs.Determinised.Advance
import TaggedRegex.Proofs.Tour.Basic

set_option autoImplicit false

/-!
One step of a configuration as a list of visits. The states that are entered, their order and the
paths that lead there depend on the automaton and the states of the threads only; the names of the
new histories are handed out in the order of the visits. `advance_eq_visits` says that a step gives
the visits on live states and the instructions of all visits, unless it runs out of names.
-/

namespace TaggedRegex

/-- A state on its way to be entered: the thread that leads there, and the edges it crosses. -/
structure Visit where
  origin : Thread
  path : List Edge
  deriving DecidableEq

namespace Visit

/-- Where the path ends. -/
def state (visit : Visit) : StateId :=
  (visit.path.getLast?.map Edge.target).getD visit.origin.state

/-- The tag of the last edge. -/
def tag? (visit : Visit) : Option Tag := visit.path.getLast?.bind Edge.tag

/-- The visit gives a history a new name. -/
def crosses (visit : Visit) : Bool := visit.tag?.isSome

/-- The visit behind an edge. -/
def follow (visit : Visit) (edge : Edge) : Visit := ⟨visit.origin, visit.path ++ [edge]⟩

/-- The visits behind the edges of one priority. -/
def followWith (visit : Visit) (edges : List Edge) (priority : Priority) : List Visit :=
  (edges.filter fun edge => edge.priority = priority).map visit.follow

/-- The visit before the last edge, if there is one. -/
def before (visit : Visit) : Visit := ⟨visit.origin, visit.path.dropLast⟩

@[simp] theorem state_follow (visit : Visit) (edge : Edge) :
    (visit.follow edge).state = edge.target := by
  simp [state, follow]

@[simp] theorem tag?_follow (visit : Visit) (edge : Edge) :
    (visit.follow edge).tag? = edge.tag := by
  simp [tag?, follow]

@[simp] theorem before_follow (visit : Visit) (edge : Edge) :
    (visit.follow edge).before = visit := by
  simp [before, follow]

theorem eq_nil_or_follow (visit : Visit) :
    visit = ⟨visit.origin, []⟩ ∨ ∃ edge, visit = visit.before.follow edge := by
  obtain ⟨origin, path⟩ := visit
  rcases List.eq_nil_or_concat path with rfl | ⟨front, edge, rfl⟩
  · exact Or.inl rfl
  · refine Or.inr ⟨edge, ?_⟩
    simp [before, follow]

/-- Visits spread over the edges that are followed freely. -/
def terrain (free : StateId → List Edge) : Terrain Visit :=
  ⟨state, fun visit => visit.followWith (free visit.state)⟩

/-! ### Histories along a path -/

variable (automaton : Automaton) (name : StateId → HistoryId)

/-- A tag gives its slot the name that goes with the state behind the edge. -/
def crossEdge (histories : List HistoryId) (edge : Edge) : List HistoryId :=
  match edge.tag.bind automaton.slot? with
  | none => histories
  | some slot => histories.set slot (name edge.target)

/-- The histories at the end of the path: for every tag on it the name that was given last, and
those of the thread for all others. -/
def histories (visit : Visit) : List HistoryId :=
  visit.path.foldl (crossEdge automaton name) visit.origin.histories

/-- The thread that has come this way. -/
def thread (visit : Visit) : Thread := ⟨visit.state, visit.histories automaton name⟩

/-- The thread on its way, before the tag of the last edge. -/
def arrival (visit : Visit) : Arrival :=
  ⟨⟨visit.state, visit.before.histories automaton name⟩, visit.tag?⟩

/-- What a visit does to the histories. -/
def instructions (visit : Visit) : List Instruction :=
  match visit.tag? with
  | none => []
  | some tag =>
      match (automaton.slot? tag).bind
          fun slot => (visit.before.histories automaton name)[slot]? with
      | none => []
      | some old =>
          [.copy (name visit.state) old, .set (name visit.state) tag.offset,
            tag.commit (name visit.state)]

variable {automaton} {name}

/-- Only tags are set, with their offsets. -/
theorem offset_of_mem_instructions {visit : Visit} {id : HistoryId} {offset : Int}
    (member : .set id offset ∈ visit.instructions automaton name) :
    ∃ tag : Tag, offset = tag.offset := by
  unfold instructions at member
  split at member
  · cases member
  · rename_i tag _
    split at member
    · cases member
    · have here : id = name visit.state ∧ offset = tag.offset := by
        cases boundary : tag.boundary <;> simpa [Tag.commit, boundary] using member
      exact ⟨tag, here.2⟩

theorem histories_follow (visit : Visit) (edge : Edge) :
    (visit.follow edge).histories automaton name =
      crossEdge automaton name (visit.histories automaton name) edge := by
  rw [histories, follow, List.foldl_append]
  rfl

theorem length_crossEdge (histories : List HistoryId) (edge : Edge) :
    (crossEdge automaton name histories edge).length = histories.length := by
  rw [crossEdge]
  split
  · rfl
  · exact List.length_set

theorem length_histories (visit : Visit) :
    (visit.histories automaton name).length = visit.origin.histories.length := by
  obtain ⟨origin, path⟩ := visit
  show (path.foldl (crossEdge automaton name) origin.histories).length = _
  generalize origin.histories = histories
  induction path generalizing histories with
  | nil => rfl
  | cons edge rest ih => rw [List.foldl_cons, ih, length_crossEdge]

theorem histories_of_not_crosses {visit : Visit} (silent : visit.crosses = false) :
    visit.histories automaton name = visit.before.histories automaton name := by
  rcases visit.eq_nil_or_follow with start | ⟨edge, step⟩
  · rw [start]
    rfl
  · have untagged : edge.tag = none := by
      rw [step, crosses, tag?_follow] at silent
      simpa using silent
    conv_lhs => rw [step]
    rw [histories_follow, crossEdge, untagged]
    rfl

/-- There is one history for every tag, and the edges are edges of the automaton. -/
structure Fits (automaton : Automaton) (visit : Visit) : Prop where
  length : visit.origin.histories.length = automaton.tags.length
  edges : ∀ edge ∈ visit.path, automaton.HasEdge edge

theorem Fits.follow {visit : Visit} (fits : visit.Fits automaton) {edge : Edge}
    (has : automaton.HasEdge edge) : (visit.follow edge).Fits automaton := by
  refine ⟨fits.length, fun other member => ?_⟩
  rcases List.mem_append.1 member with early | last
  · exact fits.edges other early
  · rw [List.mem_singleton.1 last]
    exact has

/-- The tag of the last edge has a slot, and its history before is the one to be copied. -/
theorem Fits.exists_slot {visit : Visit} (fits : visit.Fits automaton)
    (tagged : automaton.WellTagged) (name : StateId → HistoryId) {tag : Tag}
    (carries : visit.tag? = some tag) :
    ∃ slot old, automaton.slot? tag = some slot ∧
      (∀ i : Nat, automaton.tags[i]? = some tag ↔ i = slot) ∧
      (visit.before.histories automaton name)[slot]? = some old ∧
      visit.histories automaton name =
        (visit.before.histories automaton name).set slot (name visit.state) ∧
      visit.instructions automaton name = [.copy (name visit.state) old,
        .set (name visit.state) tag.offset, tag.commit (name visit.state)] := by
  rcases visit.eq_nil_or_follow with start | ⟨edge, step⟩
  · rw [start] at carries
    cases carries
  · have edgeTag : edge.tag = some tag := by
      rw [← carries, step, tag?_follow]
    have has : automaton.HasEdge edge := fits.edges edge (by rw [step]; simp [Visit.follow])
    obtain ⟨slot, found, only⟩ := tagged.exists_slot (tagged.declared edge has tag edgeTag)
    have inside : slot < (visit.before.histories automaton name).length := by
      rw [length_histories]
      show slot < visit.origin.histories.length
      rw [fits.length]
      exact (List.getElem?_eq_some_iff.1 ((only slot).2 rfl)).1
    have oldAt := List.getElem?_eq_getElem inside
    refine ⟨slot, _, found, only, oldAt, ?_, ?_⟩
    · conv_lhs => rw [step]
      rw [histories_follow, crossEdge, edgeTag, Option.bind_some, found, step, state_follow,
        before_follow]
    · rw [instructions, carries]
      dsimp only
      rw [found, Option.bind_some, oldAt]

theorem arrivals_followWith (visit : Visit) (edges : List Edge) (priority : Priority) :
    (visit.followWith edges priority).map (arrival automaton name) =
      Arrival.withPriority (visit.histories automaton name) edges priority := by
  rw [followWith, List.map_map, Arrival.withPriority, Arrival.overEdges]
  apply List.map_congr_left
  intro edge _
  simp [arrival]

/-! ### Names in the order of the visits -/

/-- Every visit that needs a name has the one that was next when it was made. -/
def Names (name : StateId → HistoryId) (supply : Supply) (visits : List Visit) : Prop :=
  ∀ earlier visit later, visits = earlier ++ visit :: later → visit.crosses = true →
    name visit.state = ⟨supply.issued + earlier.countP crosses⟩

/-- The names that are handed out one after the other. -/
def naming (supply : Supply) (visits : List Visit) (state : StateId) : HistoryId :=
  ⟨supply.issued + (visits.takeWhile fun visit => visit.state ≠ state).countP crosses⟩

theorem names_naming (supply : Supply) {visits : List Visit}
    (distinct : (visits.map state).Nodup) : Names (naming supply visits) supply visits := by
  rintro earlier visit later rfl -
  rw [List.map_append, List.map_cons, List.nodup_append] at distinct
  have passed : ∀ other ∈ earlier, decide (other.state ≠ visit.state) = true := by
    intro other member
    exact decide_eq_true (distinct.2.2 _ (List.mem_map_of_mem member) _ (List.mem_cons_self ..))
  rw [naming, List.takeWhile_append_of_pos passed, List.takeWhile_cons_of_neg (by simp),
    List.append_nil]

theorem Names.of_append {supply : Supply} {first second : List Visit}
    (names : Names name supply (first ++ second)) : Names name supply first := by
  rintro earlier visit later rfl crossing
  exact names earlier visit (later ++ second) (by simp) crossing

/-- Entering a visit either finds no name left, or makes its thread. -/
theorem crossTag_arrival {visit : Visit} {supply : Supply} (tagged : automaton.WellTagged)
    (fits : visit.Fits automaton)
    (named : visit.crosses = true → name visit.state = ⟨supply.issued⟩) :
    (visit.arrival automaton name).crossTag automaton supply = .error .historiesExhausted ∨
      (visit.arrival automaton name).crossTag automaton supply =
        .ok (visit.thread automaton name, visit.instructions automaton name,
          ⟨supply.issued + [visit].countP crosses⟩) := by
  cases carries : visit.tag? with
  | none =>
    right
    have silent : visit.crosses = false := by rw [crosses, carries]; rfl
    rw [Arrival.crossTag, arrival, thread, instructions, carries,
      histories_of_not_crosses silent, List.countP_cons_of_neg (by simp [silent])]
    rfl
  | some tag =>
    have crossing : visit.crosses = true := by rw [crosses, carries]; rfl
    obtain ⟨slot, old, found, -, oldAt, after, written⟩ := fits.exists_slot tagged name carries
    have fresh := named crossing
    rcases supply.freshHistory_cases with exhausted | next
    · left
      simp only [Arrival.crossTag, arrival, carries, found, oldAt, exhausted]
    · right
      rw [thread, after, written, fresh, List.countP_cons_of_pos crossing]
      simp only [Arrival.crossTag, arrival, carries, found, oldAt, next]
      rfl

end Visit

namespace Closure

open Visit (Names Fits crosses)

variable {automaton : Automaton} {name : StateId → HistoryId} {supply : Supply} {step : Step}

/-- The closure when some visits have been made. -/
def afterVisits (automaton : Automaton) (name : StateId → HistoryId) (supply : Supply)
    (unvisited : List StateId) (visits : List Visit) : Closure where
  unvisited := unvisited
  threads := (visits.filter fun visit => automaton.isLive visit.state).map
    (Visit.thread automaton name)
  instructions := visits.flatMap (Visit.instructions automaton name)
  supply := ⟨supply.issued + visits.countP crosses⟩

theorem afterVisits_concat (unvisited : List StateId) (visits : List Visit) (visit : Visit) :
    afterVisits automaton name supply (withoutState visit.state unvisited) (visits ++ [visit]) =
      (afterVisits automaton name supply unvisited visits).entered automaton
        (visit.arrival automaton name) (visit.thread automaton name)
        (visit.instructions automaton name)
        ⟨supply.issued + visits.countP crosses + [visit].countP crosses⟩ := by
  by_cases live : automaton.isLive visit.state = true
  · simp [afterVisits, entered, Visit.arrival, Visit.thread, live, Nat.add_assoc]
  · simp [afterVisits, entered, Visit.arrival, Visit.thread, live, Nat.add_assoc]

theorem next?_map {β : Type} (f : β → Arrival) {normal low normal' low' : List β} {next : β}
    (found : nextOf normal low = some (next, normal', low')) :
    Arrival.next? (normal.map f) (low.map f) = some (f next, normal'.map f, low'.map f) := by
  rcases nextOf_cases found with ⟨rfl, rfl⟩ | ⟨rfl, rfl, rfl⟩ <;> rfl

/-- An exploration makes the visits of a tour, unless it runs out of names. -/
theorem explore_visits (tagged : automaton.WellTagged) {normal low visits : List Visit}
    {unvisited : List StateId} (fit : ∀ visit ∈ normal ++ low, Fits automaton visit)
    (names : Names name supply
      (visits ++ (Visit.terrain (freeEdges automaton step)).tour normal low unvisited)) :
    let terrain := Visit.terrain (freeEdges automaton step)
    let outcome := explore automaton step (normal.map (Visit.arrival automaton name))
      (low.map (Visit.arrival automaton name)) (afterVisits automaton name supply unvisited visits)
    outcome = .error .historiesExhausted ∨
      outcome = .ok (afterVisits automaton name supply
        (remaining Visit.state (terrain.tour normal low unvisited) unvisited)
        (visits ++ terrain.tour normal low unvisited)) := by
  dsimp only
  fun_induction Terrain.tour (Visit.terrain (freeEdges automaton step)) normal low unvisited
    generalizing visits with
  | case1 normal low unvisited found =>
    right
    obtain ⟨rfl, rfl⟩ := append_eq_nil_of_nextOf found
    rw [remaining_nil, List.append_nil]
    exact explore_nil step _
  | case2 normal low unvisited next normal' low' found member ih =>
    rw [append_eq_of_nextOf found] at fit
    have nextFits := fit next (List.mem_cons_self ..)
    have inside : (next.arrival automaton name).thread.state ∈
        (afterVisits automaton name supply unvisited visits).unvisited := member
    -- The visit is the next one that may need a name, and it gets the one that is handed out.
    rw [List.append_cons] at names
    rw [explore_of_next? (next?_map _ found), if_pos inside]
    rcases Visit.crossTag_arrival tagged nextFits
      (fun crossing => names.of_append visits next [] rfl crossing) with exhausted | entered
    · left
      rw [show (afterVisits automaton name supply unvisited visits).supply =
        ⟨supply.issued + visits.countP crosses⟩ from rfl, exhausted]
    · rw [show (afterVisits automaton name supply unvisited visits).supply =
        ⟨supply.issued + visits.countP crosses⟩ from rfl, entered]
      have following : ∀ priority,
          Arrival.withPriority (next.thread automaton name).histories
            (freeEdges automaton step (next.thread automaton name).state) priority =
          ((Visit.terrain (freeEdges automaton step)).onward next priority).map
            (Visit.arrival automaton name) :=
        fun priority => (Visit.arrivals_followWith next _ priority).symm
      dsimp only
      rw [following, following, ← List.map_append, ← List.map_append, remaining_cons,
        List.append_cons]
      rw [← afterVisits_concat]
      apply ih _ names
      apply Terrain.forall_mem_following
      · exact fun visit waits => fit visit (List.mem_cons_of_mem next waits)
      · intro priority visit visitMember
        obtain ⟨edge, edgeMember, rfl⟩ := List.mem_map.1 visitMember
        exact nextFits.follow
          (Automaton.hasEdge_of_mem_freeEdges (List.mem_of_mem_filter edgeMember))
  | case3 normal low unvisited next normal' low' found member ih =>
    rw [append_eq_of_nextOf found] at fit
    have outside : (next.arrival automaton name).thread.state ∉
        (afterVisits automaton name supply unvisited visits).unvisited := member
    rw [explore_of_next? (next?_map _ found), if_neg outside]
    exact ih (fun visit visitMember => fit visit (List.mem_cons_of_mem next visitMember)) names

end Closure

end TaggedRegex
