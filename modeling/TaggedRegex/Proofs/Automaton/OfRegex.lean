import TaggedRegex.Proofs.Automaton.Placement
import TaggedRegex.Proofs.Automaton.Position

set_option autoImplicit false

/-!
Laying out an expression. Whatever the expression, it finds its place between two states and at the
states that are handed out next, unless there are no states left for it.
-/

namespace TaggedRegex

namespace Builder

theorem repetition_eq_connectAll (builder : Builder) (quantifier : Quantifier) (greed : Greed)
    (head first last tail : StateId) :
    builder.repetition quantifier greed head first last tail =
      builder.connectAll ((quantifier.headArms greed first tail).map (fun arm => (head, arm)) ++
        (quantifier.lastArms greed first tail).map fun arm => (last, arm)) := by
  cases quantifier <;> rfl

theorem readRanges_eq_connectAll (builder : Builder) (head tail : StateId)
    (ranges : List CharRange) :
    ranges.foldl (fun builder range => builder.readRange head tail range) builder =
      builder.connectAll ((ranges.map fun range => Arm.read range tail).map fun arm =>
        (head, arm)) := by
  induction ranges generalizing builder with
  | nil => rfl
  | cons range rest ih =>
    rw [List.foldl_cons, ih]
    rfl

/-- The arms of alternatives: the first one has the priority, and all others are low. -/
def Branching (priority : Priority) (arms : List Arm) : Prop :=
  arms = [] ∨ ∃ first others, arms = Arm.epsilon first priority :: others ∧
    ∀ arm ∈ others, arm.label = .epsilon ∧ arm.priority = .low

theorem Branching.shape {priority : Priority} {arms : List Arm}
    (branching : Branching priority arms) : Shape arms := by
  rcases branching with rfl | ⟨first, others, rfl, low⟩
  · exact .nil
  · have noneNormal : (others.filter fun arm => arm.priority = .normal) = [] := by
      rw [List.filter_eq_nil_iff]
      intro arm member
      simp [(low arm member).2]
    apply Shape.branching
    · intro arm member
      rcases List.mem_cons.1 member with rfl | later
      · rfl
      · exact (low arm later).1
    · rw [List.filter_cons, noneNormal]
      split
      · exact Nat.le_refl 1
      · exact Nat.zero_le 1

theorem Branching.low {arms : List Arm} (branching : Branching .low arms) :
    ∀ arm ∈ arms, arm.label = .epsilon ∧ arm.priority = .low := by
  rcases branching with rfl | ⟨first, others, rfl, low⟩
  · exact fun arm member => absurd member List.not_mem_nil
  · intro arm member
    rcases List.mem_cons.1 member with rfl | later
    · exact ⟨rfl, rfl⟩
    · exact low arm later

theorem shape_headArms (quantifier : Quantifier) (greed : Greed) (first tail : StateId) :
    Shape (quantifier.headArms greed first tail) := by
  apply Shape.branching
  · cases quantifier <;> simp [Quantifier.headArms, Arm.epsilon]
  · cases quantifier <;> cases greed <;>
      simp [Quantifier.headArms, Arm.epsilon, Greed.enter, Greed.leave]

theorem shape_lastArms (quantifier : Quantifier) (greed : Greed) (first tail : StateId) :
    Shape (quantifier.lastArms greed first tail) := by
  apply Shape.branching
  · cases quantifier <;> simp [Quantifier.lastArms, Arm.epsilon]
  · cases quantifier <;> cases greed <;>
      simp [Quantifier.lastArms, Arm.epsilon, Greed.enter, Greed.leave]

/-- What laying out an expression promises. -/
def LaysOut (builder : Builder) (connections : List Connection) (outcome : Except Fault Builder)
    (head tail : StateId) (regex : Regex) : Prop :=
  builder.WillPlace connections outcome head regex.groupCount Shape fun plan arms =>
    plan.Leaves head arms →
      plan.Lies builder.groups.length builder.states.issued head tail regex

theorem bind_pure_eq_map {α β : Type} (outcome : Except Fault α) (f : α → β) :
    (outcome >>= fun x => pure (f x)) = outcome.map f := by
  cases outcome <;> rfl

/-- A body between the tags of a group that has been declared. -/
theorem tagged_spec {builder : Builder} {connections : List Connection}
    (holds : builder.Holds connections) {head : StateId} (tail : StateId)
    (issued : head.index < builder.states.issued) {number : Nat}
    (declared : number < builder.groups.length) (regex : Regex)
    (body : Builder → StateId → StateId → Except Fault Builder)
    (bodySpec : ∀ {inner : Builder} {made : List Connection}, inner.Holds made →
      inner.states.issued = builder.states.issued + 2 →
      inner.groups.length = builder.groups.length →
      inner.LaysOut made (body inner ⟨builder.states.issued⟩ ⟨builder.states.issued + 1⟩)
        ⟨builder.states.issued⟩ ⟨builder.states.issued + 1⟩ regex) :
    builder.WillPlace connections (builder.tagged number head tail body) head regex.groupCount Shape
      fun plan arms => plan.Leaves head arms →
        plan.Leaves head [.cross ⟨builder.states.issued⟩ ⟨number, .opening⟩] ∧
        plan.Lies builder.groups.length (builder.states.issued + 2) ⟨builder.states.issued⟩
          ⟨builder.states.issued + 1⟩ regex ∧
        plan.Leaves ⟨builder.states.issued + 1⟩ [.cross tail ⟨number, .closing⟩] := by
  rcases builder.twoStates_cases with exhausted | fresh
  · left
    rw [tagged, exhausted]
    rfl
  let first : StateId := ⟨builder.states.issued⟩
  let last : StateId := ⟨builder.states.issued + 1⟩
  let stocked : Builder := { builder with states := ⟨builder.states.issued + 2⟩ }
  have stocks : builder.Grows connections stocked [] :=
    holds.withStates (Nat.le_add_right _ _)
  rcases stocks.holds.connectAll [(head, .cross first ⟨number, .opening⟩)]
    (fun request member => by
      rw [List.mem_singleton.1 member]
      exact Nat.lt_of_lt_of_le issued (Nat.le_add_right _ _))
    (fun request member tag carries => by
      rw [List.mem_singleton.1 member] at carries
      obtain rfl := Option.some.inj carries
      exact declared) with ⟨early, opens, earlyListed, openedStates, openedGroups⟩
  have unfolded : builder.tagged number head tail body =
      (body (stocked.connectAll [(head, .cross first ⟨number, .opening⟩)]) first last).map
        fun middle => middle.connectAll [(last, .cross tail ⟨number, .closing⟩)] := by
    rw [tagged, fresh]
    exact bind_pure_eq_map _ _
  rw [unfolded]
  generalize stocked.connectAll [(head, .cross first ⟨number, .opening⟩)] = opened at *
  have opens' := stocks.trans opens
  rw [List.nil_append] at opens'
  have openedIssued : opened.states.issued = builder.states.issued + 2 :=
    congrArg Supply.issued openedStates
  have openedLength : opened.groups.length = builder.groups.length :=
    congrArg List.length openedGroups
  rcases bodySpec opens'.holds openedIssued openedLength with
    exhausted | ⟨middle, added, success, places⟩
  · left
    rw [exhausted]
    rfl
  · right
    rw [success]
    have middleIssued := places.grows.issued
    have middleGroups := places.grows.groups
    have lastIssued : last.index < middle.states.issued := by
      show builder.states.issued + 1 < middle.states.issued
      omega
    rcases places.grows.holds.connectAll [(last, .cross tail ⟨number, .closing⟩)]
      (fun request member => by
        rw [List.mem_singleton.1 member]
        exact lastIssued)
      (fun request member tag carries => by
        rw [List.mem_singleton.1 member] at carries
        obtain rfl := Option.some.inj carries
        show number < middle.groups.length
        omega) with ⟨late, closes, lateListed, lateStates, lateGroups⟩
    have headNotLast : last ≠ head := by
      rintro rfl
      exact Nat.not_succ_le_self _ (Nat.le_of_succ_le issued)
    have earlyHead := armsOf_of_requests earlyListed head
    have lateHead := armsOf_of_requests lateListed head
    have lateLast := armsOf_of_requests lateListed last
    rw [List.filter_cons_of_pos (by simp)] at earlyHead lateLast
    rw [List.filter_cons_of_neg (by simpa using headNotLast)] at lateHead
    refine ⟨_, early ++ (added ++ late), rfl,
      (Places.around (fun arms => arms = [.cross first ⟨number, .opening⟩]) issued rfl rfl
        opens' openedIssued openedLength ?_ places closes lateStates lateGroups ?_ ?_ ?_).mono
        ?_ ?_⟩
    · intro connection member
      rcases source_of_requests earlyListed member with ⟨arm, request⟩
      exact congrArg Prod.fst (List.mem_singleton.1 request)
    · intro connection member
      rcases source_of_requests lateListed member with ⟨arm, request⟩
      exact Or.inr (congrArg Prod.fst (List.mem_singleton.1 request))
    · rw [earlyHead, lateHead]
      rfl
    · rw [lateLast]
      exact .branching (by simp [Arm.cross]) (List.length_filter_le _ _)
    · rintro arms rfl
      exact .branching (by simp [Arm.cross]) (List.length_filter_le _ _)
    · rintro plan arms rfl ⟨lies, leavesLast⟩ leavesHead
      rw [lateLast] at leavesLast
      rw [openedLength, openedIssued] at lies
      exact ⟨leavesHead, lies, leavesLast⟩

theorem insertInto_eq_append {group : Group} {groups : List Group}
    (largest : ∀ other ∈ groups, other.number < group.number) :
    group.insertInto groups = groups ++ [group] := by
  induction groups with
  | nil => rfl
  | cons first rest ih =>
    have less := largest first (List.mem_cons_self ..)
    rw [Group.insertInto, if_neg (Nat.not_lt_of_lt less),
      ih fun other member => largest other (List.mem_cons_of_mem _ member), List.cons_append]

/-- The next group is declared behind the others. -/
theorem declareGroup_of_dense {builder : Builder}
    (dense : builder.groups.map Group.number = List.range builder.groups.length) (parent : Nat) :
    builder.declareGroup ⟨builder.groups.length, parent⟩ =
      .ok { builder with groups := builder.groups ++ [⟨builder.groups.length, parent⟩] } := by
  have smaller : ∀ other ∈ builder.groups, other.number < builder.groups.length := by
    intro other member
    have listed := List.mem_map_of_mem (f := Group.number) member
    rw [dense] at listed
    exact List.mem_range.1 listed
  have new : (builder.groups.any fun other => other.number = builder.groups.length) = false := by
    rw [List.any_eq_false]
    intro other member
    simpa using Nat.ne_of_lt (smaller other member)
  rw [declareGroup]
  dsimp only
  rw [new, insertInto_eq_append smaller]
  rfl

theorem declareGroup_spec {builder : Builder} {connections : List Connection}
    (holds : builder.Holds connections) (parent : Nat) :
    builder.declareGroup ⟨builder.groups.length, parent⟩ =
        .ok { builder with groups := builder.groups ++ [⟨builder.groups.length, parent⟩] } ∧
      builder.Grows connections
        { builder with groups := builder.groups ++ [⟨builder.groups.length, parent⟩] } [] := by
  constructor
  · exact declareGroup_of_dense holds.dense parent
  · refine ⟨⟨?_, ?_, ?_⟩, Nat.le_refl _, rfl, rfl, ?_,
      fun _ member => absurd member List.not_mem_nil⟩
    · rw [List.append_nil]
      exact holds.records
    · rw [List.append_nil]
      exact holds.sources
    · rw [List.map_append, holds.dense, List.length_append]
      exact List.range_succ.symm
    · rw [List.length_append]
      exact Nat.le_add_right _ _

/-- What is placed after a group has been declared is placed with one more group. -/
theorem Places.declared {builder start after : Builder} {connections added : List Connection}
    {head : StateId} {count : Nat} {kind : List Arm → Prop} {lays : Plan → List Arm → Prop}
    (opens : builder.Grows connections start []) (states : start.states = builder.states)
    (groups : start.groups.length = builder.groups.length + 1)
    (places : start.Places (connections ++ []) after added head count kind lays) :
    builder.Places connections after added head (count + 1) kind lays := by
  have same : ∀ state, builder.New after state ↔ start.New after state := by
    intro state
    rw [New, New, states]
  refine ⟨?_, ?_, ?_, places.kind, places.shape, ?_⟩
  · exact opens.trans places.grows
  · intro connection member
    rw [same]
    exact places.inside connection member
  · rw [places.counted, groups]
    omega
  · intro plan agrees
    apply places.lays plan
    intro state isNew
    exact agrees state ((same state).2 isNew)

/-- Of the requests for two states those for one of them. -/
theorem requests_of_two {first second : StateId} (different : first ≠ second)
    (firstArms secondArms : List Arm) :
    (((firstArms.map fun arm => (first, arm)) ++ secondArms.map fun arm => (second, arm)).filter
        fun request => request.1 = first).map Prod.snd = firstArms ∧
      (((firstArms.map fun arm => (first, arm)) ++ secondArms.map fun arm => (second, arm)).filter
        fun request => request.1 = second).map Prod.snd = secondArms := by
  rw [List.filter_append, List.filter_append, List.filter_map, List.filter_map, List.filter_map,
    List.filter_map]
  constructor
  · simp [Function.comp_def, different.symm]
  · simp [Function.comp_def, different]

theorem untagged_repetition (quantifier : Quantifier) (greed : Greed) (first tail : StateId) :
    ∀ arm ∈ quantifier.headArms greed first tail ++ quantifier.lastArms greed first tail,
      arm.tag = none := by
  cases quantifier <;> simp [Quantifier.headArms, Quantifier.lastArms, Arm.epsilon]

/-- A body between two new states, and arms out of `head` and out of the last state. -/
theorem around_spec {builder : Builder} {connections : List Connection}
    (holds : builder.Holds connections) {head : StateId}
    (issued : head.index < builder.states.issued) {regex : Regex}
    {outcome : Except Fault Builder} (headArms lastArms : List Arm)
    (bodySpec : LaysOut { builder with states := ⟨builder.states.issued + 2⟩ } connections outcome
      ⟨builder.states.issued⟩ ⟨builder.states.issued + 1⟩ regex)
    (untagged : ∀ arm ∈ headArms ++ lastArms, arm.tag = none) (lastShape : Shape lastArms) :
    builder.WillPlace connections (outcome.map fun middle =>
        middle.connectAll ((headArms.map fun arm => (head, arm)) ++
          lastArms.map fun arm => (⟨builder.states.issued + 1⟩, arm)))
      head regex.groupCount (fun arms => arms = headArms) fun plan _ =>
        plan.Lies builder.groups.length (builder.states.issued + 2) ⟨builder.states.issued⟩
            ⟨builder.states.issued + 1⟩ regex ∧
          plan.Leaves ⟨builder.states.issued + 1⟩ lastArms := by
  let last : StateId := ⟨builder.states.issued + 1⟩
  have stocks : builder.Grows connections
      { builder with states := ⟨builder.states.issued + 2⟩ } [] :=
    holds.withStates (Nat.le_add_right _ _)
  rcases bodySpec with exhausted | ⟨middle, added, success, places⟩
  · left
    rw [exhausted]
    rfl
  · right
    rw [success]
    have middleIssued : builder.states.issued + 2 ≤ middle.states.issued := places.grows.issued
    have headNotLast : head ≠ last := by
      rintro rfl
      exact Nat.not_succ_le_self _ (Nat.le_of_succ_le issued)
    have sources : ∀ request ∈ (headArms.map fun arm => (head, arm)) ++
        lastArms.map (fun arm => (last, arm)), request.1 = head ∨ request.1 = last := by
      intro request member
      rcases List.mem_append.1 member with inHead | inLast
      · obtain ⟨arm, -, rfl⟩ := List.mem_map.1 inHead
        exact Or.inl rfl
      · obtain ⟨arm, -, rfl⟩ := List.mem_map.1 inLast
        exact Or.inr rfl
    rcases places.grows.holds.connectAll ((headArms.map fun arm => (head, arm)) ++
        lastArms.map fun arm => (last, arm))
      (fun request member => by
        rcases sources request member with same | same
        · rw [same]
          omega
        · rw [same]
          exact middleIssued)
      (fun request member tag carries => by
        rcases List.mem_append.1 member with inHead | inLast
        · obtain ⟨arm, armMember, rfl⟩ := List.mem_map.1 inHead
          rw [untagged arm (List.mem_append_left _ armMember)] at carries
          cases carries
        · obtain ⟨arm, armMember, rfl⟩ := List.mem_map.1 inLast
          rw [untagged arm (List.mem_append_right _ armMember)] at carries
          cases carries) with ⟨late, closes, lateListed, lateStates, lateGroups⟩
    have atHead := armsOf_of_requests lateListed head
    have atLast := armsOf_of_requests lateListed last
    rw [(requests_of_two headNotLast headArms lastArms).1] at atHead
    rw [(requests_of_two headNotLast headArms lastArms).2] at atLast
    have nothing : connections ++ [] = connections := List.append_nil _
    rw [← nothing] at places closes
    refine ⟨_, [] ++ (added ++ late), rfl,
      (Places.around (fun arms => arms = headArms) issued rfl rfl stocks rfl rfl
        (fun _ member => absurd member List.not_mem_nil) places closes lateStates lateGroups
        ?_ ?_ ?_).mono (fun _ same => same) ?_⟩
    · intro connection member
      rcases source_of_requests lateListed member with ⟨arm, request⟩
      exact sources _ request
    · rw [atHead]
      rfl
    · rw [atLast]
      exact lastShape
    · rintro plan arms - ⟨lies, leavesLast⟩
      rw [atLast] at leavesLast
      exact ⟨lies, leavesLast⟩

mutual

/-- An expression finds its place between two states, unless the states run out. -/
theorem addRegex_spec (regex : Regex) {builder : Builder} {connections : List Connection}
    (holds : builder.Holds connections) {head : StateId}
    (issued : head.index < builder.states.issued) (tail : StateId) {parent : Nat}
    (inGroup : parent < builder.groups.length) :
    builder.LaysOut connections (builder.addRegex head tail parent regex) head tail regex := by
  match regex with
  | .any =>
    rw [addRegex]
    apply (places_connectAll holds issued [.read .all tail] (by simp [Arm.read])).mono
    · rintro arms rfl
      exact .reading tail (by simp [Arm.read])
    · rintro plan arms rfl - leaves
      exact leaves
  | .lit c =>
    rw [addRegex]
    apply (places_connectAll holds issued [.read (.single c) tail] (by simp [Arm.read])).mono
    · rintro arms rfl
      exact .reading tail (by simp [Arm.read])
    · rintro plan arms rfl - leaves
      exact leaves
  | .set ranges =>
    rw [addRegex, readRanges_eq_connectAll]
    apply (places_connectAll holds issued _ (by simp [Arm.read])).mono
    · rintro arms rfl
      exact .reading tail (by simp [Arm.read])
    · rintro plan arms rfl - leaves
      exact leaves
  | .atEnd =>
    rw [addRegex]
    apply (places_connectAll holds issued [⟨.atEnd, tail, .normal, none⟩] (by simp)).mono
    · rintro arms rfl
      exact .ending _ rfl rfl
    · rintro plan arms rfl - leaves
      exact leaves
  | .group body =>
    rcases declareGroup_spec holds parent with ⟨declares, opens⟩
    let number := builder.groups.length
    let start : Builder := { builder with groups := builder.groups ++ [⟨number, parent⟩] }
    have length : start.groups.length = number + 1 := List.length_append ..
    have unfolded : builder.addRegex head tail parent (.group body) =
        start.tagged number head tail fun inner first last =>
          inner.addRegex first last number body := by
      rw [addRegex, Group.inside, if_pos inGroup]
      show (builder.declareGroup ⟨builder.groups.length, parent⟩ >>= _) = _
      rw [declares]
      rfl
    rw [unfolded]
    have declared : number < start.groups.length := by
      rw [length]
      exact Nat.lt_succ_self _
    have inside : ∀ {inner : Builder} {made : List Connection}, inner.Holds made →
        inner.states.issued = start.states.issued + 2 →
        inner.groups.length = start.groups.length →
        inner.LaysOut made (inner.addRegex ⟨start.states.issued⟩ ⟨start.states.issued + 1⟩ number
          body) ⟨start.states.issued⟩ ⟨start.states.issued + 1⟩ body := by
      intro inner made innerHolds taken same
      rw [← same] at declared
      refine addRegex_spec body innerHolds ?_ _ declared
      rw [taken]
      exact Nat.lt_add_of_pos_right Nat.zero_lt_two
    rcases tagged_spec opens.holds tail issued declared body
      (fun inner first last => inner.addRegex first last number body) inside with
      exhausted | ⟨after, added, success, places⟩
    · exact Or.inl exhausted
    · right
      refine ⟨after, added, success, (places.declared opens rfl length).mono
        (fun _ shape => shape) ?_⟩
      intro plan arms _ lies leaves
      rw [length] at lies
      exact lies leaves
  | .rep quantifier greed body =>
    have stocks : builder.Grows connections
        { builder with states := ⟨builder.states.issued + 2⟩ } [] :=
      holds.withStates (Nat.le_add_right _ _)
    have innerHolds := stocks.holds
    rw [List.append_nil] at innerHolds
    rcases builder.twoStates_cases with exhausted | fresh
    · left
      rw [addRegex, exhausted]
      rfl
    have unfolded : builder.addRegex head tail parent (.rep quantifier greed body) =
        (addRegex { builder with states := ⟨builder.states.issued + 2⟩ } ⟨builder.states.issued⟩
          ⟨builder.states.issued + 1⟩ parent body).map fun middle =>
            middle.repetition quantifier greed head ⟨builder.states.issued⟩
              ⟨builder.states.issued + 1⟩ tail := by
      rw [addRegex, fresh]
      exact bind_pure_eq_map _ _
    rw [unfolded]
    simp only [repetition_eq_connectAll]
    apply (around_spec holds issued _ _ (addRegex_spec body innerHolds
      (Nat.lt_add_of_pos_right (by decide)) _ inGroup)
      (untagged_repetition quantifier greed _ tail) (shape_lastArms quantifier greed _ tail)).mono
    · rintro arms rfl
      exact shape_headArms quantifier greed _ tail
    · rintro plan arms rfl ⟨lies, leavesLast⟩ leaves
      exact ⟨leaves, lies, leavesLast⟩
  | .alt branches =>
    rw [addRegex]
    apply (addBranches_spec branches holds issued tail .normal inGroup).mono
    · exact fun _ branching => branching.shape
    · rintro plan arms - ⟨rfl, lies⟩ leaves
      exact ⟨leaves, lies⟩
  | .cat items =>
    rw [addRegex]
    exact addItems_spec items holds issued tail inGroup

/-- Alternatives find their place; their arms out of `head` come one after the other. -/
theorem addBranches_spec (branches : List Regex) {builder : Builder}
    {connections : List Connection} (holds : builder.Holds connections) {head : StateId}
    (issued : head.index < builder.states.issued) (tail : StateId) (priority : Priority)
    {parent : Nat} (inGroup : parent < builder.groups.length) :
    builder.WillPlace connections (builder.addBranches head tail parent priority branches) head
      (Regex.groupCounts branches) (Branching priority) fun plan arms =>
        arms = Regex.branchArms builder.states.issued priority branches ∧
          plan.LiesBranches builder.groups.length builder.states.issued tail branches := by
  match branches with
  | [] =>
    rw [addBranches]
    apply (places_connectAll holds issued [] (by simp)).mono
    · rintro arms rfl
      exact Or.inl rfl
    · rintro plan arms rfl -
      exact ⟨rfl, trivial⟩
  | branch :: rest =>
    have stocks : builder.Grows connections
        { builder with states := ⟨builder.states.issued + 2⟩ } [] :=
      holds.withStates (Nat.le_add_right _ _)
    have innerHolds := stocks.holds
    rw [List.append_nil] at innerHolds
    rcases builder.twoStates_cases with exhausted | fresh
    · left
      rw [addBranches, exhausted]
      rfl
    let first : StateId := ⟨builder.states.issued⟩
    let last : StateId := ⟨builder.states.issued + 1⟩
    have unfolded : builder.addBranches head tail parent priority (branch :: rest) =
        ((addRegex { builder with states := ⟨builder.states.issued + 2⟩ } first last parent
          branch).map fun middle => middle.connectAll ([(head, .epsilon first priority)] ++
            [(last, .epsilon tail .normal)])) >>= fun middle =>
              middle.addBranches head tail parent .low rest := by
      rw [addBranches, fresh]
      show (addRegex _ _ _ _ _ >>= _) = _
      cases addRegex { builder with states := ⟨builder.states.issued + 2⟩ } first last parent
        branch <;> rfl
    rw [unfolded]
    have here := around_spec holds issued [.epsilon first priority]
      [.epsilon tail .normal] (addRegex_spec branch innerHolds
        (Nat.lt_add_of_pos_right (by decide)) _ inGroup) (by simp [Arm.epsilon])
      (.branching (by simp [Arm.epsilon]) (List.length_filter_le _ _))
    rcases here with exhausted | ⟨middle, front, success, places⟩
    · left
      simp only [List.map_cons, List.map_nil] at exhausted
      rw [exhausted]
      rfl
    · simp only [List.map_cons, List.map_nil] at success
      have taken : middle.states.issued = builder.states.issued + (branch.breadth + 2) := by
        cases done : addRegex { builder with states := ⟨builder.states.issued + 2⟩ } first last
            parent branch with
        | error fault =>
          rw [done] at success
          cases success
        | ok inner =>
          rw [done] at success
          obtain rfl := Except.ok.inj success
          have laid := issued_of_addRegex branch done
          change inner.states.issued = builder.states.issued + 2 + branch.breadth at laid
          show inner.states.issued = _
          omega
      rw [success]
      have counted := places.counted
      have later := addBranches_spec rest places.grows.holds
        (Nat.lt_of_lt_of_le issued places.grows.issued) tail .low
        (Nat.lt_of_lt_of_le inGroup places.grows.groups)
      rcases later with exhausted | ⟨after, back, success', others⟩
      · exact Or.inl exhausted
      · right
        refine ⟨after, front ++ back, success', (places.beside issued others).mono ?_ ?_⟩
        · rintro arms ⟨early, late, rfl, rfl, branching⟩
          exact Or.inr ⟨first, late, rfl, branching.low⟩
        · rintro plan arms - ⟨early, late, rfl, rfl, ⟨lies, leavesLast⟩, rfl, liesRest⟩
          rw [counted, taken] at liesRest
          rw [taken]
          exact ⟨rfl, lies, leavesLast, liesRest⟩

/-- Expressions one behind the other find their place. -/
theorem addItems_spec (items : List Regex) {builder : Builder} {connections : List Connection}
    (holds : builder.Holds connections) {head : StateId}
    (issued : head.index < builder.states.issued) (tail : StateId) {parent : Nat}
    (inGroup : parent < builder.groups.length) :
    builder.WillPlace connections (builder.addItems head tail parent items) head
      (Regex.groupCounts items) Shape fun plan arms =>
        plan.Leaves head arms →
          plan.LiesItems builder.groups.length builder.states.issued head tail items := by
  match items with
  | [] =>
    rw [addItems]
    apply (places_connectAll holds issued [.epsilon tail .normal] (by simp [Arm.epsilon])).mono
    · rintro arms rfl
      exact .branching (by simp [Arm.epsilon]) (List.length_filter_le _ _)
    · rintro plan arms rfl - leaves
      exact leaves
  | [last] =>
    rw [addItems]
    exact addRegex_spec last holds issued tail inGroup
  | item :: next :: rest =>
    have stocks : builder.Grows connections
        { builder with states := ⟨builder.states.issued + 1⟩ } [] :=
      holds.withStates (Nat.le_add_right _ _)
    have innerHolds := stocks.holds
    rw [List.append_nil] at innerHolds
    rcases builder.state_cases with exhausted | fresh
    · left
      rw [addItems, exhausted]
      rfl
    let middle : StateId := ⟨builder.states.issued⟩
    have unfolded : builder.addItems head tail parent (item :: next :: rest) =
        addRegex { builder with states := ⟨builder.states.issued + 1⟩ } head middle parent item >>=
          fun inner => inner.addItems middle tail parent (next :: rest) := by
      rw [addItems, fresh]
      rfl
    rw [unfolded]
    rcases addRegex_spec item innerHolds (Nat.lt_succ_of_lt issued) middle inGroup with
      exhausted | ⟨inner, front, success, places⟩
    · left
      rw [exhausted]
      rfl
    · have taken := issued_of_addRegex item success
      change inner.states.issued = builder.states.issued + 1 + item.breadth at taken
      rw [Nat.add_assoc, Nat.add_comm 1] at taken
      rw [success]
      have counted := places.counted
      have middleIssued : middle.index < inner.states.issued :=
        Nat.lt_of_lt_of_le (Nat.lt_succ_self _) places.grows.issued
      rcases addItems_spec (next :: rest) places.grows.holds middleIssued tail
        (Nat.lt_of_lt_of_le inGroup places.grows.groups) with
        exhausted | ⟨after, back, success', others⟩
      · exact Or.inl exhausted
      · right
        refine ⟨after, front ++ back, success',
          (Places.behind issued rfl stocks rfl rfl places others).mono (fun _ shape => shape) ?_⟩
        intro plan arms _ lies leaves
        rw [counted, taken] at lies
        exact lies leaves

end

end Builder

end TaggedRegex
