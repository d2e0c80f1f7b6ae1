import TaggedRegex.Proofs.Trail.Run

set_option autoImplicit false

/-!
The walkers after some characters stand on the live states that runs reach, each with the least
trail that leads there. So the winner has followed the least run, and nobody wins if there is no
run.
-/

namespace TaggedRegex

namespace Walker

variable {automaton : Automaton}

/-- The walkers are those of the least runs up to the live states, in the order of their trails. -/
structure Lead (automaton : Automaton) (input : List Char) (walkers : List Walker) : Prop where
  sorted : Survey.Sorted walkers
  arrives : ∀ walker ∈ walkers, automaton.Arrives input walker.trail walker.state
  least : ∀ trail state, automaton.Arrives input trail state → automaton.isLive state = true →
    ∃ walker ∈ walkers, walker.state = state ∧ walker.trail.NotAfter trail

theorem mem_live {survey : Survey} {walker : Walker} :
    walker ∈ survey.live automaton ↔
      walker ∈ survey.entered ∧ automaton.isLive walker.state = true := by
  rw [Survey.live, List.mem_filter]

/-- An open path over epsilon edges: every state after the first one is the target of an edge. -/
theorem open_of_glides {walkers : List Walker} {consumed : Nat} {arrival : Walker} {glide : Trail}
    {target : StateId} {step : Step}
    (inside : arrival.state ∈ (unexplored automaton walkers).unvisited)
    (glides : Glides (Closure.freeEdges automaton step) consumed arrival.state glide target)
    (simple : (arrival.state :: glide.entered).Nodup) :
    Survey.Open (Closure.freeEdges automaton step) consumed (unexplored automaton walkers) arrival
      glide target := by
  refine ⟨glides, simple, ?_⟩
  intro state member
  rcases List.mem_cons.1 member with rfl | later
  · exact inside
  · apply List.mem_append_right
    exact glides.entered_subset (fun _ _ edgeMember =>
      Automaton.hasEdge_of_mem_freeEdges edgeMember) state later

/-- The walkers after one phase of epsilon edges. -/
theorem lead_of_descend (orderly : automaton.Orderly) {step : Step}
    (epsilon : Closure.freeEdges automaton step = automaton.onEpsilon) {consumed : Nat}
    {walkers stack : List Walker} (sorted : Survey.Sorted stack) {input : List Char}
    (arrives : ∀ arrival ∈ stack, ∀ glide target,
      Glides automaton.onEpsilon consumed arrival.state glide target →
      (arrival.state :: glide.entered).Nodup →
      automaton.Arrives input (arrival.trail ++ glide) target)
    (least : ∀ trail state, automaton.Arrives input trail state → ∃ arrival ∈ stack, ∃ glide,
      arrival.state ∈ (unexplored automaton walkers).unvisited ∧
      Glides automaton.onEpsilon consumed arrival.state glide state ∧
      (arrival.state :: glide.entered).Nodup ∧ (arrival.trail ++ glide).NotAfter trail) :
    Lead automaton input ((Survey.descend (Closure.freeEdges automaton step) consumed stack
      (unexplored automaton walkers)).live automaton) := by
  have narrow := orderly.narrow step
  refine ⟨?_, ?_, ?_⟩
  · have still : ∀ state, automaton.isLive state = true →
        Closure.freeEdges automaton step state = [] := by
      intro state live
      rw [epsilon]
      exact orderly.quiet state live
    exact Survey.descend_sorted narrow still sorted List.Pairwise.nil
      fun found member => absurd member List.not_mem_nil
  · intro walker member
    rcases Survey.descend_sound (mem_live.1 member).1 with
      early | ⟨arrival, arrivalMember, glide, path, trail⟩
    · cases early
    · have glides := path.glides
      rw [epsilon] at glides
      rw [trail]
      exact arrives arrival arrivalMember glide walker.state glides path.simple
  · intro trail state reached live
    rcases least trail state reached with ⟨arrival, member, glide, inside, glides, simple, le⟩
    rw [← epsilon] at glides
    rcases Survey.descend_least narrow sorted member (open_of_glides inside glides simple) with
      ⟨found, foundMember, same, foundLe⟩
    refine ⟨found, mem_live.2 ⟨foundMember, ?_⟩, same, foundLe.trans le⟩
    rw [same]
    exact live

theorem lead_begun (orderly : automaton.Orderly) : Lead automaton [] (begun automaton) := by
  rw [begun, advance_eq orderly]
  apply lead_of_descend orderly rfl (sorted_arrivals orderly _ _ (List.pairwise_singleton _ _))
  · intro arrival member glide target glides simple
    obtain rfl : arrival = ⟨automaton.initial, []⟩ := by simpa [arrivals] using member
    exact .start glides simple
  · intro trail state reached
    rcases reached.of_nil with ⟨glides, simple⟩
    refine ⟨⟨automaton.initial, []⟩, by simp [arrivals], trail, ?_, glides, simple, Or.inl rfl⟩
    exact List.mem_append_left _ (List.mem_cons_self ..)

theorem Lead.advance (orderly : automaton.Orderly) {input : List Char} {walkers : List Walker}
    (lead : Lead automaton input walkers) (c : Char) :
    Lead automaton (input ++ [c])
      (Walker.advance automaton (.char c) (input.length + 1) walkers) := by
  rw [advance_eq orderly]
  apply lead_of_descend orderly rfl (sorted_arrivals orderly _ _ lead.sorted)
  · intro arrival member glide target glides simple
    rcases List.mem_flatMap.1 member with ⟨walker, walkerMember, following⟩
    obtain ⟨edge, edgeMember, rfl⟩ := List.mem_map.1 following
    have next := Automaton.Arrives.read (lead.arrives walker walkerMember) edgeMember glides simple
    rw [follow, List.append_assoc]
    exact next
  · intro trail state reached
    rcases reached.of_concat with
      ⟨before, source, edge, glide, early, edgeMember, glides, simple, rfl⟩
    rcases lead.least before source early (Automaton.isLive_of_mem_onChar edgeMember) with
      ⟨walker, walkerMember, rfl, le⟩
    refine ⟨walker.follow (input.length + 1) edge, ?_, glide, ?_, glides, simple, ?_⟩
    · exact List.mem_flatMap.2 ⟨walker, walkerMember, List.mem_map_of_mem edgeMember⟩
    · apply List.mem_append_right
      exact Automaton.target_mem_targets (Automaton.hasEdge_of_mem_onChar edgeMember)
    · rw [follow, List.append_assoc]
      exact le.append _

theorem lead_afterChars (orderly : automaton.Orderly) (rest : List Char) {input : List Char}
    {walkers : List Walker} (lead : Lead automaton input walkers) :
    Lead automaton (input ++ rest) (afterChars automaton walkers input.length rest) := by
  induction rest generalizing input walkers with
  | nil =>
    rw [List.append_nil]
    exact lead
  | cons c rest ih =>
    have next := ih (lead.advance orderly c)
    rw [List.append_assoc, List.length_append] at next
    exact next

/-- At the end of the input the walkers arrive where runs go on. -/
theorem Lead.ends_of_arrival (orderly : automaton.Orderly) {input : List Char}
    {walkers : List Walker} (lead : Lead automaton input walkers) {arrival : Walker}
    (member : arrival ∈ walkers.flatMap (arrivals automaton .finish input.length)) {glide : Trail}
    (glides : Glides (Closure.freeEdges automaton .finish) input.length arrival.state glide
      automaton.accept)
    (simple : (arrival.state :: glide.entered).Nodup) :
    automaton.IsRun input (arrival.trail ++ glide) := by
  have wider : Glides (fun other => automaton.onEpsilon other ++ automaton.onEnd other)
      input.length arrival.state glide automaton.accept := by
    apply glides.mono
    intro state edge edgeMember
    rw [Closure.freeEdges, List.mem_mergeSort] at edgeMember
    exact edgeMember
  rcases List.mem_flatMap.1 member with ⟨walker, walkerMember, reached⟩
  have arrives := lead.arrives walker walkerMember
  rcases List.mem_append.1 reached with staying | crossing
  · split at staying
    · rename_i accepting
      rw [List.mem_singleton.1 staying] at wider ⊢
      have noGlide : glide = [] := by
        rw [accepting] at wider
        cases wider with
        | stay => rfl
        | cross edgeMember _ =>
          rw [orderly.quiet _ (Automaton.isLive_accept automaton), orderly.acceptStops]
            at edgeMember
          cases edgeMember
      refine ⟨walker.trail, [], walker.state, by rw [noGlide], arrives, ?_⟩
      rw [accepting]
      exact .accepting
    · cases staying
  · obtain ⟨edge, edgeMember, rfl⟩ := List.mem_map.1 crossing
    refine ⟨walker.trail, ⟨edge, input.length⟩ :: glide, walker.state, ?_, arrives, ?_⟩
    · rw [follow, List.append_assoc]
      rfl
    · apply Automaton.Ends.atEnd ?_ edgeMember wider simple
      intro accepting
      rw [accepting, orderly.acceptStops] at edgeMember
      cases edgeMember

/-- Every run ends behind an arrival whose trail is no later. -/
theorem Lead.arrival_of_run {input : List Char} {walkers : List Walker}
    (lead : Lead automaton input walkers) {run : Trail} (isRun : automaton.IsRun input run) :
    ∃ arrival ∈ walkers.flatMap (arrivals automaton .finish input.length), ∃ glide,
      arrival.state ∈ (unexplored automaton walkers).unvisited ∧
      Glides (Closure.freeEdges automaton .finish) input.length arrival.state glide
        automaton.accept ∧
      (arrival.state :: glide.entered).Nodup ∧ (arrival.trail ++ glide).NotAfter run := by
  rcases isRun with ⟨before, last, state, rfl, arrives, ends⟩
  cases ends with
  | accepting =>
    rcases lead.least before _ arrives (Automaton.isLive_accept automaton) with
      ⟨walker, walkerMember, same, le⟩
    refine ⟨walker, ?_, [], ?_, ?_, List.nodup_singleton _, le.append []⟩
    · refine List.mem_flatMap.2 ⟨walker, walkerMember, ?_⟩
      apply List.mem_append_left
      rw [if_pos same]
      exact List.mem_singleton_self walker
    · exact List.mem_append_left _ (List.mem_map_of_mem walkerMember)
    · rw [same]
      exact .stay _
  | @atEnd _ edge glide _ edgeMember glides simple =>
    rcases lead.least before state arrives (Automaton.isLive_of_mem_onEnd edgeMember) with
      ⟨walker, walkerMember, rfl, le⟩
    refine ⟨walker.follow input.length edge, ?_, glide, ?_, ?_, simple, ?_⟩
    · refine List.mem_flatMap.2 ⟨walker, walkerMember, ?_⟩
      exact List.mem_append_right _ (List.mem_map_of_mem edgeMember)
    · apply List.mem_append_right
      exact Automaton.target_mem_targets (Automaton.hasEdge_of_mem_edgesAt edgeMember)
    · apply glides.mono
      intro other next nextMember
      rw [Closure.freeEdges, List.mem_mergeSort]
      exact nextMember
    · rw [follow, List.append_assoc]
      exact le.append _

/-- Only one walker enters a state. -/
theorem find?_eq_of_fresh {survey : Survey} (fresh : survey.Fresh) {walker : Walker}
    (member : walker ∈ survey.live automaton) :
    ((survey.live automaton).find? fun other => other.state = walker.state) = some walker := by
  have distinct : ((survey.live automaton).map Walker.state).Nodup :=
    fresh.distinct.sublist (List.filter_sublist.map Walker.state)
  cases found : (survey.live automaton).find? fun other => other.state = walker.state with
  | none =>
    have absent := List.find?_eq_none.1 found walker member
    simp at absent
  | some other =>
    have same : other.state = walker.state := by simpa using List.find?_some found
    rw [List.inj_on_of_nodup_map distinct (List.mem_of_find?_eq_some found) member same]

end Walker

namespace Automaton

/-- In an orderly automaton somebody wins exactly if there is a run, and then with the least one. -/
theorem winner?_least {automaton : Automaton} (orderly : automaton.Orderly) (input : List Char) :
    match automaton.winner? input with
    | none => ∀ run, ¬ automaton.IsRun input run
    | some winner => automaton.IsRun input winner.trail ∧
        ∀ run, automaton.IsRun input run → winner.trail.NotAfter run := by
  have lead := Walker.lead_afterChars orderly input (Walker.lead_begun orderly)
  rw [List.nil_append] at lead
  let walkers := Walker.afterChars automaton (Walker.begun automaton) 0 input
  let survey := Survey.descend (Closure.freeEdges automaton .finish) input.length
    (walkers.flatMap (Walker.arrivals automaton .finish input.length))
    (Walker.unexplored automaton walkers)
  have fresh : survey.Fresh := (Walker.fresh_unexplored automaton walkers).descend
  have sorted := Walker.sorted_arrivals orderly .finish input.length lead.sorted
  have unfolded : automaton.winner? input =
      (survey.live automaton).find? fun walker => walker.state = automaton.accept := by
    rw [winner?, Walker.winner?, Walker.advance_eq orderly]
  -- A run leads to a walker on the accepting state, whose trail is no later.
  have beaten : ∀ run, automaton.IsRun input run → ∃ walker,
      automaton.winner? input = some walker ∧ walker.trail.NotAfter run := by
    intro run isRun
    rcases lead.arrival_of_run isRun with ⟨arrival, member, glide, inside, glides, simple, le⟩
    rcases Survey.descend_least (orderly.narrow .finish) sorted member
      (Walker.open_of_glides inside glides simple) with ⟨found, foundMember, same, foundLe⟩
    refine ⟨found, ?_, foundLe.trans le⟩
    rw [unfolded, ← same]
    apply Walker.find?_eq_of_fresh fresh
    rw [Walker.mem_live, same]
    exact ⟨foundMember, isLive_accept automaton⟩
  cases won : automaton.winner? input with
  | none =>
    intro run isRun
    rcases beaten run isRun with ⟨walker, found, -⟩
    rw [won] at found
    cases found
  | some winner =>
    refine ⟨?_, ?_⟩
    · rw [unfolded] at won
      have accepting : winner.state = automaton.accept := by simpa using List.find?_some won
      have entered := (Walker.mem_live.1 (List.mem_of_find?_eq_some won)).1
      rcases Survey.descend_sound entered with early | ⟨arrival, member, glide, path, trail⟩
      · cases early
      · have glides := path.glides
        rw [accepting] at glides
        rw [trail]
        exact lead.ends_of_arrival orderly member glides path.simple
    · intro run isRun
      rcases beaten run isRun with ⟨walker, found, le⟩
      obtain rfl : winner = walker := Option.some.inj (won.symm.trans found)
      exact le

end Automaton

end TaggedRegex
