import TaggedRegex.Proofs.Tour.Basic
import TaggedRegex.Proofs.Trail.Glide
import TaggedRegex.Proofs.Trail.Order

set_option autoImplicit false

/-!
Exploration with one stack. Where every state has at most one normal edge, the two stacks of an
exploration behave like one, and a depth-first descent enters every state over the least of the
paths that lead there and enter no state twice.
-/

namespace TaggedRegex

namespace Survey

variable {free : StateId → List Edge} {consumed : Nat}

/-- Enters states from one stack: what follows a state is dealt with before what waits. -/
def descend (free : StateId → List Edge) (consumed : Nat) (stack : List Walker)
    (survey : Survey) : Survey :=
  match stack with
  | [] => survey
  | walker :: rest =>
      if walker.state ∈ survey.unvisited then
        descend free consumed ((free walker.state).map (walker.follow consumed) ++ rest)
          (survey.enter walker)
      else descend free consumed rest survey
termination_by (survey.unvisited.length, stack.length)
decreasing_by
  · exact Prod.Lex.left _ _ (Closure.length_withoutState_lt _ _ (by assumption))
  · exact Prod.Lex.right _ (by simp)

theorem descend_nil (survey : Survey) : descend free consumed [] survey = survey := by
  rw [descend]

theorem descend_enter {walker : Walker} {survey : Survey}
    (member : walker.state ∈ survey.unvisited) (rest : List Walker) :
    descend free consumed (walker :: rest) survey =
      descend free consumed ((free walker.state).map (walker.follow consumed) ++ rest)
        (survey.enter walker) := by
  rw [descend, if_pos member]

theorem descend_skip {walker : Walker} {survey : Survey}
    (member : walker.state ∉ survey.unvisited) (rest : List Walker) :
    descend free consumed (walker :: rest) survey = descend free consumed rest survey := by
  rw [descend, if_neg member]

theorem state_not_mem_enter (survey : Survey) (walker : Walker) :
    walker.state ∉ (survey.enter walker).unvisited := by
  intro inside
  rw [enter, mem_withoutState] at inside
  exact inside.2 rfl

/-- What waits at the bottom is dealt with last. -/
theorem descend_append (first second : List Walker) (survey : Survey) :
    descend free consumed (first ++ second) survey =
      descend free consumed second (descend free consumed first survey) := by
  fun_induction descend free consumed first survey with
  | case1 survey => rfl
  | case2 survey walker rest member ih =>
    rw [List.cons_append, descend_enter member, ← List.append_assoc, ih]
  | case3 survey walker rest member ih =>
    rw [List.cons_append, descend_skip member, ih]

/-- The normal edges of a state come first, and there is at most one. -/
def Narrow (edges : List Edge) : Prop :=
  (edges.filter fun edge => edge.priority = .normal).length ≤ 1 ∧
    edges.Pairwise Edge.Before

theorem filter_priority_append {edges : List Edge} (sorted : edges.Pairwise Edge.Before) :
    (edges.filter fun edge => edge.priority = .normal) ++
      (edges.filter fun edge => edge.priority = .low) = edges := by
  induction edges with
  | nil => rfl
  | cons edge rest ih =>
    rw [List.pairwise_cons] at sorted
    cases priority : edge.priority with
    | normal =>
      rw [List.filter_cons_of_pos (by simpa using priority),
        List.filter_cons_of_neg (by simp [priority]), List.cons_append, ih sorted.2]
    | low =>
      have onlyLow : ∀ other ∈ edge :: rest, other.priority = .low := by
        intro other member
        rcases List.mem_cons.1 member with rfl | later
        · exact priority
        · rcases (Edge.before_iff _ _).1 (sorted.1 other later) with ⟨normal, -⟩ | ⟨same, -⟩
          · rw [priority] at normal
            cases normal
          · rw [← same, priority]
      rw [List.filter_eq_nil_iff.2, List.filter_eq_self.2, List.nil_append]
      · intro other member
        simpa using onlyLow other member
      · intro other member
        simp [onlyLow other member]

theorem Narrow.follow {edges : List Edge} (narrow : Narrow edges) (walker : Walker) :
    walker.followWith consumed edges .normal ++ walker.followWith consumed edges .low =
      edges.map (walker.follow consumed) := by
  rw [Walker.followWith, Walker.followWith, ← List.map_append, filter_priority_append narrow.2]

/-- Walkers spread over the edges that are followed freely. -/
def terrain (free : StateId → List Edge) (consumed : Nat) : Terrain Walker :=
  ⟨Walker.state, fun walker => walker.followWith consumed (free walker.state)⟩

theorem narrow_terrain (narrow : ∀ state, Narrow (free state)) :
    (terrain free consumed).Narrow
      fun walker => (free walker.state).map (walker.follow consumed) := by
  intro walker
  refine ⟨?_, (narrow walker.state).follow walker⟩
  show (walker.followWith consumed (free walker.state) .normal).length ≤ 1
  rw [Walker.followWith, List.length_map]
  exact (narrow walker.state).1

theorem next?_eq_nextOf (normal low : List Walker) :
    Walker.next? normal low = nextOf normal low := by
  cases normal <;> cases low <;> rfl

/-- An exploration enters the walkers of a tour. -/
theorem explore_eq_tour (normal low : List Walker) (survey : Survey) :
    explore free consumed normal low survey =
      ⟨remaining Walker.state ((terrain free consumed).tour normal low survey.unvisited)
          survey.unvisited,
        survey.entered ++ (terrain free consumed).tour normal low survey.unvisited⟩ := by
  fun_induction explore free consumed normal low survey with
  | case1 normal low survey found =>
    rw [next?_eq_nextOf] at found
    obtain ⟨rfl, rfl⟩ := append_eq_nil_of_nextOf found
    rw [Terrain.tour_nil, remaining_nil, List.append_nil]
  | case2 normal low survey walker normal' low' found member ih =>
    rw [next?_eq_nextOf] at found
    have inside : (terrain free consumed).state walker ∈ survey.unvisited := member
    rw [ih, Terrain.tour_of_nextOf found, if_pos inside, remaining_cons, List.append_cons]
    rfl
  | case3 normal low survey walker normal' low' found member ih =>
    rw [next?_eq_nextOf] at found
    have outside : (terrain free consumed).state walker ∉ survey.unvisited := member
    rw [ih, Terrain.tour_of_nextOf found, if_neg outside]

/-- A descent enters the walkers of a depth-first search. -/
theorem descend_eq_depthFirst (stack : List Walker) (survey : Survey) :
    let found := depthFirst Walker.state
      (fun walker => (free walker.state).map (walker.follow consumed)) survey.unvisited stack
    descend free consumed stack survey =
      ⟨remaining Walker.state found survey.unvisited, survey.entered ++ found⟩ := by
  dsimp only
  fun_induction descend free consumed stack survey with
  | case1 survey => rw [depthFirst_nil, remaining_nil, List.append_nil]
  | case2 survey walker rest member ih =>
    rw [ih, depthFirst_enter member, remaining_cons, List.append_cons]
    rfl
  | case3 survey walker rest member ih => rw [ih, depthFirst_skip member]

/-- With at most one walker on the normal stack the two stacks behave like one. -/
theorem explore_eq_descend (narrow : ∀ state, Narrow (free state)) {normal low : List Walker}
    {survey : Survey} (few : normal.length ≤ 1) :
    explore free consumed normal low survey = descend free consumed (normal ++ low) survey := by
  rw [explore_eq_tour, descend_eq_depthFirst,
    Terrain.tour_eq_depthFirst (narrow_terrain narrow) few]
  rfl

/-- Of several walkers on one state only the first one gets in. -/
theorem explore_eq_descend_of_target (narrow : ∀ state, Narrow (free state))
    {walkers : List Walker} {survey : Survey} {target : StateId}
    (same : ∀ walker ∈ walkers, walker.state = target) :
    explore free consumed walkers [] survey = descend free consumed walkers survey := by
  rw [explore_eq_tour, descend_eq_depthFirst,
    Terrain.tour_eq_depthFirst_of_target (narrow_terrain narrow) same]
  rfl

/-! ### What a descent enters -/

/-- Nothing that has been entered is forgotten. -/
theorem mem_descend {entered : Walker} (stack : List Walker) {survey : Survey}
    (member : entered ∈ survey.entered) :
    entered ∈ (descend free consumed stack survey).entered := by
  fun_induction descend free consumed stack survey with
  | case1 survey => exact member
  | case2 survey walker rest unvisited ih => exact ih (List.mem_append_left _ member)
  | case3 survey walker rest visited ih => exact ih member

theorem Fresh.descend {stack : List Walker} {survey : Survey} (fresh : survey.Fresh) :
    (descend free consumed stack survey).Fresh := by
  fun_induction Survey.descend free consumed stack survey with
  | case1 survey => exact fresh
  | case2 survey walker rest member ih => exact ih (fresh.enter member)
  | case3 survey walker rest member ih => exact ih fresh

/-- The path from a walker on the stack stays on unvisited states, enters none of them twice, and
ends at `target`. -/
structure Open (free : StateId → List Edge) (consumed : Nat) (survey : Survey) (walker : Walker)
    (glide : Trail) (target : StateId) : Prop where
  glides : Glides free consumed walker.state glide target
  simple : (walker.state :: glide.entered).Nodup
  unvisited : ∀ state ∈ walker.state :: glide.entered, state ∈ survey.unvisited

theorem Open.of_enter {survey : Survey} {walker other : Walker} {glide : Trail} {target : StateId}
    (path : Open free consumed (survey.enter walker) other glide target) :
    Open free consumed survey other glide target :=
  ⟨path.glides, path.simple, fun state member => by
    have inside := path.unvisited state member
    rw [enter, mem_withoutState] at inside
    exact inside.1⟩

/-- A path behind an edge of the entered walker is a path from that walker. -/
theorem Open.of_follow {survey : Survey} {walker : Walker} {edge : Edge} {glide : Trail}
    {target : StateId} (entered : walker.state ∈ survey.unvisited)
    (edgeMember : edge ∈ free walker.state)
    (path : Open free consumed (survey.enter walker) (walker.follow consumed edge) glide target) :
    Open free consumed survey walker (⟨edge, consumed⟩ :: glide) target := by
  have before := path.of_enter
  refine ⟨.cross edgeMember path.glides, ?_, ?_⟩
  · apply List.nodup_cons.2 ⟨?_, path.simple⟩
    intro again
    exact state_not_mem_enter survey walker (path.unvisited _ again)
  · intro state member
    rcases List.mem_cons.1 member with rfl | later
    · exact entered
    · exact before.unvisited state later

/-- Every walker that is entered has come over an open path from the stack. -/
theorem descend_sound {stack : List Walker} {survey : Survey} {found : Walker}
    (member : found ∈ (descend free consumed stack survey).entered) :
    found ∈ survey.entered ∨ ∃ walker ∈ stack, ∃ glide,
      Open free consumed survey walker glide found.state ∧ found.trail = walker.trail ++ glide := by
  fun_induction descend free consumed stack survey with
  | case1 survey => exact Or.inl member
  | case2 survey walker rest unvisited ih =>
    rcases ih member with early | ⟨other, otherMember, glide, path, trail⟩
    · rcases List.mem_append.1 early with old | new
      · exact Or.inl old
      · right
        rw [List.mem_singleton.1 new]
        refine ⟨walker, List.mem_cons_self .., [], ⟨.stay _, List.nodup_singleton _, ?_⟩,
          (List.append_nil _).symm⟩
        intro state stateMember
        rw [List.mem_singleton.1 stateMember]
        exact unvisited
    · right
      rcases List.mem_append.1 otherMember with following | waiting
      · obtain ⟨edge, edgeMember, rfl⟩ := List.mem_map.1 following
        refine ⟨walker, List.mem_cons_self .., ⟨edge, consumed⟩ :: glide,
          path.of_follow unvisited edgeMember, ?_⟩
        rw [trail]
        exact List.append_assoc walker.trail [⟨edge, consumed⟩] glide
      · exact ⟨other, List.mem_cons_of_mem _ waiting, glide, path.of_enter, trail⟩
  | case3 survey walker rest visited ih =>
    rcases ih member with early | ⟨other, otherMember, path⟩
    · exact Or.inl early
    · exact Or.inr ⟨other, List.mem_cons_of_mem _ otherMember, path⟩

/-- The walkers on a stack are sorted by their trails. -/
def Sorted (stack : List Walker) : Prop :=
  stack.Pairwise fun first second => first.trail.Precedes second.trail

theorem sorted_follow (walker : Walker) {edges : List Edge} (sorted : edges.Pairwise Edge.Before) :
    Sorted (edges.map (walker.follow consumed)) := by
  rw [Sorted, List.pairwise_map]
  exact sorted.imp fun before => Trail.Precedes.prepend walker.trail (.here before)

/-- The stack stays sorted when the edges of a walker take its place. -/
theorem Sorted.push {walker : Walker} {rest : List Walker} (sorted : Sorted (walker :: rest))
    {edges : List Edge} (edgesSorted : edges.Pairwise Edge.Before) :
    Sorted (edges.map (walker.follow consumed) ++ rest) := by
  rw [Sorted, List.pairwise_cons] at sorted
  rw [Sorted, List.pairwise_append]
  refine ⟨sorted_follow walker edgesSorted, sorted.2, ?_⟩
  intro following member other otherMember
  obtain ⟨edge, -, rfl⟩ := List.mem_map.1 member
  have before := (sorted.1 other otherMember).append [⟨edge, consumed⟩] []
  rw [List.append_nil] at before
  exact before

/-- Whatever open path leads somewhere, the walker that gets there has a trail that is no later. The
induction is on the descent; a path that runs into the state just entered is replaced by the path
from there, whose beginning is earlier. -/
theorem descend_least (narrow : ∀ state, Narrow (free state)) {stack : List Walker}
    {survey : Survey} (sorted : Sorted stack) {walker : Walker} (member : walker ∈ stack)
    {glide : Trail} {target : StateId} (path : Open free consumed survey walker glide target) :
    ∃ found ∈ (descend free consumed stack survey).entered, found.state = target ∧
      found.trail.NotAfter (walker.trail ++ glide) := by
  fun_induction descend free consumed stack survey generalizing walker glide with
  | case1 survey => cases member
  | case2 survey first rest unvisited ih =>
    have pushed : Sorted ((free first.state).map (first.follow consumed) ++ rest) :=
      sorted.push (narrow first.state).2
    have fromFirst : ∀ glide, Open free consumed survey first glide target →
        ∃ found ∈ (descend free consumed ((free first.state).map (first.follow consumed) ++ rest)
            (survey.enter first)).entered,
          found.state = target ∧ found.trail.NotAfter (first.trail ++ glide) := by
      intro glide path
      cases glide with
      | nil =>
        have here : first.state = target := by
          cases path.glides
          rfl
        have early := List.mem_append_right survey.entered (List.mem_singleton_self first)
        refine ⟨first, mem_descend _ early, here, ?_⟩
        exact Or.inl (List.append_nil _).symm
      | cons crossing glide =>
        have glides := path.glides
        have simple := List.nodup_cons.1 path.simple
        cases glides with
        | @cross _ _ edge _ edgeMember after =>
          have following : Open free consumed (survey.enter first) (first.follow consumed edge)
              glide target := by
            refine ⟨after, simple.2, ?_⟩
            intro state stateMember
            rw [enter, mem_withoutState]
            refine ⟨path.unvisited state (List.mem_cons_of_mem _ stateMember), ?_⟩
            rintro rfl
            exact simple.1 stateMember
          have pushedMember : first.follow consumed edge ∈
              (free first.state).map (first.follow consumed) ++ rest :=
            List.mem_append_left _ (List.mem_map_of_mem edgeMember)
          rcases ih pushed pushedMember following with ⟨found, foundMember, state, le⟩
          refine ⟨found, foundMember, state, ?_⟩
          rw [Walker.follow, List.append_assoc] at le
          exact le
    rw [Sorted, List.pairwise_cons] at sorted
    rcases List.mem_cons.1 member with rfl | waiting
    · exact fromFirst glide path
    · by_cases through : first.state ∈ walker.state :: glide.entered
      · rcases path.glides.split_at through with ⟨before, after, rfl, early, late⟩
        have shorter : Open free consumed survey first after target := by
          refine ⟨late, early.simple_of_split path.simple, ?_⟩
          intro state stateMember
          rcases List.mem_cons.1 stateMember with rfl | inside
          · exact unvisited
          · apply path.unvisited
            rw [Trail.entered_append]
            exact List.mem_cons_of_mem _ (List.mem_append_right _ inside)
        rcases fromFirst after shorter with ⟨found, foundMember, state, le⟩
        refine ⟨found, foundMember, state, Or.inr ?_⟩
        exact le.trans_precedes ((sorted.1 walker waiting).append after (before ++ after))
      · have beside : Open free consumed (survey.enter first) walker glide target := by
          refine ⟨path.glides, path.simple, ?_⟩
          intro state stateMember
          rw [enter, mem_withoutState]
          refine ⟨path.unvisited state stateMember, ?_⟩
          rintro rfl
          exact through stateMember
        exact ih pushed (List.mem_append_right _ waiting) beside
  | case3 survey first rest visited ih =>
    have waiting : walker ∈ rest := by
      rcases List.mem_cons.1 member with rfl | later
      · exact absurd (path.unvisited _ (List.mem_cons_self ..)) visited
      · exact later
    exact ih (List.Pairwise.of_cons sorted) waiting path

/-- Walkers on states that nothing leads on from are entered in the order of their trails. -/
theorem descend_sorted (narrow : ∀ state, Narrow (free state)) {stack : List Walker}
    {survey : Survey} {quiet : StateId → Bool}
    (still : ∀ state, quiet state = true → free state = []) (sorted : Sorted stack)
    (before : Sorted (survey.entered.filter fun walker => quiet walker.state))
    (earlier : ∀ found ∈ survey.entered, quiet found.state = true → ∀ walker ∈ stack,
      found.trail.Precedes walker.trail) :
    Sorted ((descend free consumed stack survey).entered.filter fun walker =>
      quiet walker.state) := by
  fun_induction descend free consumed stack survey with
  | case1 survey => exact before
  | case2 survey first rest unvisited ih =>
    have pushed : Sorted ((free first.state).map (first.follow consumed) ++ rest) :=
      sorted.push (narrow first.state).2
    rw [Sorted, List.pairwise_cons] at sorted
    have entered : (survey.enter first).entered = survey.entered ++ [first] := rfl
    apply ih pushed
    · rw [entered, List.filter_append]
      by_cases isQuiet : quiet first.state = true
      · have kept : [first].filter (fun walker => quiet walker.state) = [first] := by
          simp [isQuiet]
        rw [kept, Sorted, List.pairwise_append]
        refine ⟨before, List.pairwise_singleton _ _, ?_⟩
        intro found member other otherMember
        rw [List.mem_singleton.1 otherMember]
        rw [List.mem_filter] at member
        exact earlier found member.1 member.2 first (List.mem_cons_self ..)
      · have dropped : [first].filter (fun walker => quiet walker.state) = [] := by
          simp [isQuiet]
        rw [dropped, List.append_nil]
        exact before
    · intro found member isQuiet walker walkerMember
      rw [entered, List.mem_append] at member
      rcases member with old | new
      · rcases List.mem_append.1 walkerMember with following | waiting
        · obtain ⟨edge, -, rfl⟩ := List.mem_map.1 following
          have less := (earlier found old isQuiet first (List.mem_cons_self ..)).append []
            [⟨edge, consumed⟩]
          rw [List.append_nil] at less
          exact less
        · exact earlier found old isQuiet walker (List.mem_cons_of_mem _ waiting)
      · obtain rfl := List.mem_singleton.1 new
        rw [still found.state isQuiet, List.map_nil, List.nil_append] at walkerMember
        exact sorted.1 walker walkerMember
  | case3 survey first rest visited ih =>
    apply ih (List.Pairwise.of_cons sorted) before
    intro found member isQuiet walker walkerMember
    exact earlier found member isQuiet walker (List.mem_cons_of_mem _ walkerMember)

end Survey

end TaggedRegex
