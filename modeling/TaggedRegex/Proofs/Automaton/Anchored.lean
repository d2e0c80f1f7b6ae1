import TaggedRegex.Proofs.Automaton.OfRegex

set_option autoImplicit false

/-!
The automaton of an expression. It is orderly, and the expression lies between its initial and its
accepting state as group 0, with a lazy filler before it and a greedy one behind it in a search.
-/

namespace TaggedRegex

namespace Builder

/-- Nothing is missing in an automaton whose tags all belong to declared groups. -/
theorem build_spec {builder : Builder} {connections : List Connection}
    (holds : builder.Holds connections)
    (tags : ∀ connection ∈ connections, ∀ tag, connection.edge.tag = some tag →
      tag.group < builder.groups.length)
    {initial accept : StateId} (hasInitial : builder.initial = some initial)
    (hasAccept : builder.accept = some accept) :
    builder.build = .ok ⟨builder.rows, initial, accept, builder.groups⟩ := by
  have allDeclared : ∀ tag ∈ builder.rows.flatMap fun row => row.edges.filterMap Edge.tag,
      tag ∈ Automaton.tags ⟨builder.rows, initial, accept, builder.groups⟩ := by
    intro tag member
    rcases List.mem_flatMap.1 member with ⟨row, rowMember, inRow⟩
    rcases List.mem_filterMap.1 inRow with ⟨edge, edgeMember, carries⟩
    have listed : (⟨row.source, row.label, edge⟩ : Connection) ∈ connections := by
      rw [← holds.records.mem]
      exact ⟨row, rowMember, rfl, rfl, edgeMember⟩
    have small := tags _ listed tag carries
    rw [← List.mem_range, ← holds.dense] at small
    rcases List.mem_map.1 small with ⟨group, groupMember, number⟩
    apply List.mem_flatMap.2 ⟨group, groupMember, ?_⟩
    obtain ⟨tagGroup, boundary⟩ := tag
    obtain rfl : group.number = tagGroup := number
    cases boundary with
    | opening => exact List.mem_cons_self ..
    | closing => exact List.mem_cons_of_mem _ (List.mem_singleton_self _)
  unfold Builder.build
  rw [hasInitial, hasAccept]
  dsimp only
  rw [if_neg (not_not.2 holds.dense)]
  have noneMissing : ((builder.rows.flatMap fun row => row.edges.filterMap Edge.tag).find?
      fun tag => tag ∉ Automaton.tags ⟨builder.rows, initial, accept, builder.groups⟩) = none := by
    rw [List.find?_eq_none]
    intro tag member
    simpa using allDeclared tag member
  rw [noneMissing]

end Builder

/-- The expression whose match against the whole input is the match that is asked for. -/
def Regex.anchored (regex : Regex) : Anchor → Regex
  | .full => .group regex
  | .search => .cat [.rep .star .lazy .any, .group regex, .rep .star .greedy .any]

/-- At which states the parts of an anchored expression lie. -/
def Plan.LiesAnchored (plan : Plan) (regex : Regex) : Anchor → Prop
  | .full => plan.Lies 0 2 ⟨0⟩ ⟨1⟩ (.group regex)
  | .search =>
      plan.Lies 0 4 ⟨0⟩ ⟨2⟩ (.rep .star .lazy .any) ∧ plan.Lies 0 6 ⟨2⟩ ⟨3⟩ (.group regex) ∧
        plan.Lies (regex.groupCount + 1) (regex.breadth + 8) ⟨3⟩ ⟨1⟩ (.rep .star .greedy .any)

theorem Plan.LiesAnchored.lays {plan : Plan} {regex : Regex} {anchor : Anchor}
    (lies : plan.LiesAnchored regex anchor) : plan.Lays 0 ⟨0⟩ ⟨1⟩ (regex.anchored anchor) := by
  cases anchor with
  | full => exact Lies.lays _ lies
  | search =>
    obtain ⟨front, entire, rear⟩ := lies
    have rearNumber : 0 + 0 + (regex.groupCount + 1) = regex.groupCount + 1 := by omega
    refine ⟨⟨2⟩, Lies.lays _ front, ⟨3⟩, Lies.lays _ entire, ?_⟩
    show plan.Lays (0 + 0 + (regex.groupCount + 1)) _ _ _
    rw [rearNumber]
    exact Lies.lays _ rear

/-- The automaton lays out the expression between its initial and its accepting state. -/
structure Automaton.Lays (automaton : Automaton) (connections : List Connection)
    (regex : Regex) : Prop where
  draws : automaton.Draws connections
  shape : ∀ state, Shape (armsOf connections state)
  stops : armsOf connections automaton.accept = []
  lays : (automaton.plan connections).Lays 0 automaton.initial automaton.accept regex

/-- The automaton is that of the expression, with the states where the expression puts them. -/
structure Automaton.Sits (automaton : Automaton) (connections : List Connection) (regex : Regex)
    (anchor : Anchor) : Prop where
  lays : automaton.Lays connections (regex.anchored anchor)
  initial : automaton.initial = ⟨0⟩
  accept : automaton.accept = ⟨1⟩
  lies : (automaton.plan connections).LiesAnchored regex anchor
  tagged : automaton.WellTagged
  numbers : automaton.groups.map Group.number = List.range (regex.groupCount + 1)

theorem Automaton.Lays.orderly {automaton : Automaton} {connections : List Connection}
    {regex : Regex} (lays : automaton.Lays connections regex) : automaton.Orderly :=
  orderly_of_shape lays.draws lays.shape lays.stops

namespace Builder

/-- The builder with both distinguished states and group 0, before anything is laid out. -/
def framed : Builder where
  states := ⟨2⟩
  rows := []
  initial := some ⟨0⟩
  accept := some ⟨1⟩
  groups := [.entireMatch]
  connected := 0

theorem holds_framed : framed.Holds [] :=
  ⟨.empty, fun _ member => absurd member List.not_mem_nil, rfl⟩

/-- The entire match is laid out as group 0. -/
theorem entireMatch_spec {builder : Builder} {connections : List Connection}
    (holds : builder.Holds connections) {head : StateId} (tail : StateId)
    (issued : head.index < builder.states.issued) (groups : builder.groups.length = 1)
    (regex : Regex) :
    builder.WillPlace connections
      (builder.tagged 0 head tail fun inner first last => inner.addRegex first last 0 regex)
      head regex.groupCount Shape fun plan arms =>
        plan.Leaves head arms → plan.Lies 0 builder.states.issued head tail (.group regex) := by
  have declared : 0 < builder.groups.length := by
    rw [groups]
    exact Nat.zero_lt_one
  have inside : ∀ {inner : Builder} {made : List Connection}, inner.Holds made →
      inner.states.issued = builder.states.issued + 2 →
      inner.groups.length = builder.groups.length →
      inner.LaysOut made (inner.addRegex ⟨builder.states.issued⟩ ⟨builder.states.issued + 1⟩ 0
        regex) ⟨builder.states.issued⟩ ⟨builder.states.issued + 1⟩ regex := by
    intro inner made innerHolds taken same
    rw [← same] at declared
    refine addRegex_spec regex innerHolds ?_ _ declared
    rw [taken]
    exact Nat.lt_add_of_pos_right Nat.zero_lt_two
  apply (tagged_spec holds tail issued declared regex
    (fun inner first last => inner.addRegex first last 0 regex) inside).mono
    (fun _ shape => shape)
  intro plan arms _ lies leaves
  rw [groups] at lies
  exact lies leaves

end Builder

namespace Builder

/-- A builder that has laid out the whole expression gives the automaton of the expression. -/
theorem build_framed {after : Builder} {added : List Connection} {regex : Regex} {anchor : Anchor}
    (grows : framed.Grows [] after added) (counted : after.groups.length = 1 + regex.groupCount)
    (shape : ∀ state, Shape (armsOf added state)) (stops : armsOf added ⟨1⟩ = [])
    (lies : Plan.LiesAnchored ⟨armsOf added, ⟨1⟩⟩ regex anchor) :
    ∃ automaton, after.build = .ok automaton ∧ automaton.Sits added regex anchor := by
  have holds := grows.holds
  rw [List.nil_append] at holds
  have built := build_spec holds grows.tags grows.initial grows.accept
  have numbers : after.groups.map Group.number = List.range (regex.groupCount + 1) := by
    rw [Nat.add_comm regex.groupCount 1, ← counted]
    exact holds.dense
  exact ⟨_, built, ⟨⟨after.connected, holds.records⟩, shape, stops, lies.lays⟩, rfl, rfl, lies,
    (Builder.build_eq_ok built).2.2.2.2.2, numbers⟩

/-- The builder for a search, with two more states around the entire match. -/
def framedSearch : Builder := { framed with states := ⟨4⟩ }

theorem grows_framedSearch : framed.Grows [] framedSearch [] :=
  holds_framed.withStates (by decide)

/-- The parts of a search share no states. States 0, 2 and 3 begin the parts, and the others were
handed out one part after the other, up to `filled` and up to `passed` for the first two. -/
structure Apart (filled passed : Nat) (first second third : List Connection) : Prop where
  four : 4 ≤ filled
  le : filled ≤ passed
  front : ∀ state : StateId, state.index ≠ 0 → state.index < 4 ∨ filled ≤ state.index →
    armsOf first state = []
  entire : ∀ state : StateId, state.index ≠ 2 → state.index < filled ∨ passed ≤ state.index →
    armsOf second state = []
  rear : ∀ state : StateId, state.index ≠ 3 → state.index < passed → armsOf third state = []

theorem ne_of_index {state : StateId} {n : Nat} (different : state.index ≠ n) : state ≠ ⟨n⟩ := by
  rintro rfl
  exact different rfl

namespace Apart

variable {filled passed : Nat} {first second third : List Connection}

theorem armsOf_front (apart : Apart filled passed first second third) {state : StateId}
    (inside : state.index = 0 ∨ 4 ≤ state.index ∧ state.index < filled) :
    armsOf (first ++ (second ++ third)) state = armsOf first state := by
  have four := apart.four
  have le := apart.le
  rw [armsOf_append, armsOf_append, apart.entire state (by omega) (by omega),
    apart.rear state (by omega) (by omega), List.append_nil, List.append_nil]

theorem armsOf_entire (apart : Apart filled passed first second third) {state : StateId}
    (inside : state.index = 2 ∨ filled ≤ state.index ∧ state.index < passed) :
    armsOf (first ++ (second ++ third)) state = armsOf second state := by
  have four := apart.four
  have le := apart.le
  rw [armsOf_append, armsOf_append, apart.front state (by omega) (by omega),
    apart.rear state (by omega) (by omega), List.append_nil, List.nil_append]

theorem armsOf_rear (apart : Apart filled passed first second third) {state : StateId}
    (inside : state.index = 3 ∨ passed ≤ state.index) :
    armsOf (first ++ (second ++ third)) state = armsOf third state := by
  have four := apart.four
  have le := apart.le
  rw [armsOf_append, armsOf_append, apart.front state (by omega) (by omega),
    apart.entire state (by omega) (by omega), List.nil_append, List.nil_append]

/-- No part leads on from the accepting state. -/
theorem stops (apart : Apart filled passed first second third) :
    armsOf (first ++ (second ++ third)) ⟨1⟩ = [] := by
  have four := apart.four
  have le := apart.le
  have index : (⟨1⟩ : StateId).index = 1 := rfl
  rw [armsOf_append, armsOf_append, apart.front ⟨1⟩ (by omega) (by omega),
    apart.entire ⟨1⟩ (by omega) (by omega), apart.rear ⟨1⟩ (by omega) (by omega)]
  rfl

/-- Every state has a shape if it has one in the part that it belongs to. -/
theorem shape (apart : Apart filled passed first second third)
    (shapes : ∀ state, Shape (armsOf first state) ∧ Shape (armsOf second state) ∧
      Shape (armsOf third state)) (state : StateId) :
    Shape (armsOf (first ++ (second ++ third)) state) := by
  by_cases inFront : state.index = 0 ∨ 4 ≤ state.index ∧ state.index < filled
  · rw [apart.armsOf_front inFront]
    exact (shapes state).1
  by_cases inEntire : state.index = 2 ∨ filled ≤ state.index ∧ state.index < passed
  · rw [apart.armsOf_entire inEntire]
    exact (shapes state).2.1
  by_cases inRear : state.index = 3 ∨ passed ≤ state.index
  · rw [apart.armsOf_rear inRear]
    exact (shapes state).2.2
  · have isAccept : state = ⟨1⟩ := StateId.eq_of_index_eq (show state.index = 1 by omega)
    rw [isAccept, apart.stops]
    exact .nil

end Apart

/-- Where something was placed every state has a shape. -/
theorem Places.shapes {before after : Builder} {connections added : List Connection}
    {head : StateId} {count : Nat} {lays : Plan → List Arm → Prop}
    (places : before.Places connections after added head count Shape lays) (state : StateId) :
    Shape (armsOf added state) := by
  by_cases isHead : state = head
  · rw [isHead]
    exact places.kind
  · exact places.shape state isHead

/-- The builder of a match against the whole input gives its automaton. -/
theorem build_entire {regex : Regex} {after : Builder} {added : List Connection}
    (places : framed.Places [] after added ⟨0⟩ regex.groupCount Shape fun plan arms =>
      plan.Leaves ⟨0⟩ arms → plan.Lies 0 2 ⟨0⟩ ⟨1⟩ (.group regex)) :
    ∃ automaton, after.build = .ok automaton ∧ automaton.Sits added regex .full := by
  have old : ¬ framed.New after ⟨1⟩ := fun isNew => absurd isNew.1 (by decide)
  have stops : armsOf added ⟨1⟩ = [] := places.armsOf_outside (by decide) old
  have others : ∀ state, framed.New after state → state ≠ ⟨1⟩ := by
    rintro state isNew rfl
    exact old isNew
  have begins : (⟨0⟩ : StateId) ≠ ⟨1⟩ := by decide
  have lies := places.lays ⟨armsOf added, ⟨1⟩⟩ (fun state isNew => ⟨others state isNew, rfl⟩)
    ⟨begins, rfl⟩
  exact build_framed places.grows places.counted places.shapes stops lies

/-- The parts of a search, placed one after the other. -/
structure Parts (regex : Regex) (early middle after : Builder)
    (first second third : List Connection) : Prop where
  front : framedSearch.Places [] early first ⟨0⟩ 0 Shape fun plan arms =>
    plan.Leaves ⟨0⟩ arms → plan.Lies 0 4 ⟨0⟩ ⟨2⟩ (.rep .star .lazy .any)
  entire : early.Places first middle second ⟨2⟩ regex.groupCount Shape fun plan arms =>
    plan.Leaves ⟨2⟩ arms → plan.Lies 0 6 ⟨2⟩ ⟨3⟩ (.group regex)
  rear : middle.Places (first ++ second) after third ⟨3⟩ 0 Shape fun plan arms =>
    plan.Leaves ⟨3⟩ arms →
      plan.Lies (regex.groupCount + 1) (regex.breadth + 8) ⟨3⟩ ⟨1⟩ (.rep .star .greedy .any)

namespace Parts

variable {regex : Regex} {early middle after : Builder} {first second third : List Connection}

theorem apart (parts : Parts regex early middle after first second third) :
    Apart early.states.issued middle.states.issued first second third := by
  have four : 4 ≤ early.states.issued := parts.front.grows.issued
  have le : early.states.issued ≤ middle.states.issued := parts.entire.grows.issued
  refine ⟨four, le, ?_, ?_, ?_⟩
  · intro state notHead outside
    apply parts.front.armsOf_outside (ne_of_index notHead)
    rintro ⟨lower, upper⟩
    have above : 4 ≤ state.index := lower
    omega
  · intro state notHead outside
    apply parts.entire.armsOf_outside (ne_of_index notHead)
    rintro ⟨lower, upper⟩
    omega
  · intro state notHead outside
    apply parts.rear.armsOf_outside (ne_of_index notHead)
    rintro ⟨lower, upper⟩
    omega

/-- The parts lie one behind the other between the initial and the accepting state. -/
theorem lies (parts : Parts regex early middle after first second third) :
    Plan.LiesAnchored ⟨armsOf (first ++ (second ++ third)), ⟨1⟩⟩ regex .search := by
  have apart := parts.apart
  have four := apart.four
  have le := apart.le
  let plan : Plan := ⟨armsOf (first ++ (second ++ third)), ⟨1⟩⟩
  have leaves : ∀ {state : StateId} {arms : List Arm}, state.index ≠ 1 → plan.arms state = arms →
      plan.Leaves state arms := by
    intro state arms notAccept asArms
    exact ⟨ne_of_index notAccept, asArms⟩
  refine ⟨?_, ?_, ?_⟩
  · apply parts.front.lays plan ?_ (leaves (by decide) (apart.armsOf_front (Or.inl rfl)))
    rintro state ⟨lower, upper⟩
    have above : 4 ≤ state.index := lower
    exact leaves (by omega) (apart.armsOf_front (Or.inr ⟨above, upper⟩))
  · apply parts.entire.lays plan ?_ (leaves (by decide) (apart.armsOf_entire (Or.inl rfl)))
    rintro state ⟨lower, upper⟩
    exact leaves (by omega) (apart.armsOf_entire (Or.inr ⟨lower, upper⟩))
  · apply parts.rear.lays plan ?_ (leaves (by decide) (apart.armsOf_rear (Or.inl rfl)))
    rintro state ⟨lower, upper⟩
    exact leaves (by omega) (apart.armsOf_rear (Or.inr lower))

/-- The builder of a search gives its automaton. -/
theorem build (parts : Parts regex early middle after first second third) :
    ∃ automaton, after.build = .ok automaton ∧
      automaton.Sits (first ++ (second ++ third)) regex .search := by
  have grows : framed.Grows [] after (first ++ (second ++ third)) :=
    grows_framedSearch.trans
      (parts.front.grows.trans (parts.entire.grows.trans parts.rear.grows))
  have counted : after.groups.length = 1 + regex.groupCount := by
    have fromFront : early.groups.length = 1 := parts.front.counted
    have fromEntire := parts.entire.counted
    have fromRear : after.groups.length = middle.groups.length := parts.rear.counted
    omega
  have shape := parts.apart.shape fun state =>
    ⟨parts.front.shapes state, parts.entire.shapes state, parts.rear.shapes state⟩
  exact build_framed grows counted shape parts.apart.stops parts.lies

end Parts

/-- The parts of a search find their places, unless the states run out. -/
theorem parts_spec (regex : Regex) {builder : Except Fault Builder}
    (composed : builder = framedSearch.addFiller ⟨0⟩ ⟨2⟩ .lazy >>= fun front =>
      (front.tagged 0 ⟨2⟩ ⟨3⟩ fun inner first last => inner.addRegex first last 0 regex) >>=
        fun middle => middle.addFiller ⟨3⟩ ⟨1⟩ .greedy) :
    builder = .error .statesExhausted ∨ ∃ early middle after first second third,
      builder = .ok after ∧ Parts regex early middle after first second third := by
  have initialIssued : (⟨0⟩ : StateId).index < framedSearch.states.issued := by decide
  have declared : 0 < framedSearch.groups.length := by decide
  rcases addRegex_spec (.rep .star .lazy .any) grows_framedSearch.holds initialIssued ⟨2⟩
    declared with exhausted | ⟨early, first, success, filler⟩
  · left
    rw [composed, addFiller, exhausted]
    rfl
  have earlyIssued : early.states.issued = 6 := issued_of_addRegex _ success
  have earlyGroups : early.groups.length = 1 := filler.counted
  have beginsIssued : (⟨2⟩ : StateId).index < early.states.issued := by
    rw [earlyIssued]
    decide
  rcases entireMatch_spec filler.grows.holds ⟨3⟩ beginsIssued earlyGroups regex with
    exhausted | ⟨middle, second, success', entire⟩
  · left
    rw [composed, addFiller, success]
    show (tagged _ _ _ _ _ >>= _) = _
    rw [exhausted]
    rfl
  have middleIssued : middle.states.issued = regex.breadth + 8 := by
    rw [issued_of_tagged (fun done => issued_of_addRegex regex done) success', earlyIssued]
    omega
  have middleGroups : middle.groups.length = regex.groupCount + 1 := by
    rw [entire.counted, earlyGroups, Nat.add_comm]
  have endsIssued : (⟨3⟩ : StateId).index < middle.states.issued := by
    rw [middleIssued]
    exact Nat.lt_add_left _ (by decide)
  have declaredStill : 0 < middle.groups.length := by omega
  rcases addRegex_spec (.rep .star .greedy .any) entire.grows.holds endsIssued ⟨1⟩
    declaredStill with exhausted | ⟨after, third, success'', rear⟩
  · left
    rw [composed, addFiller, success]
    show (tagged _ _ _ _ _ >>= _) = _
    rw [success']
    exact exhausted
  · right
    rw [earlyIssued] at entire
    rw [middleGroups, middleIssued] at rear
    refine ⟨early, middle, after, first, second, third, ?_, filler, entire, rear⟩
    rw [composed, addFiller, success]
    show (tagged _ _ _ _ _ >>= _) = _
    rw [success']
    exact success''

end Builder

namespace Regex

open Builder

theorem automaton_full (regex : Regex) :
    regex.automaton .full = (framed.tagged 0 ⟨0⟩ ⟨1⟩ fun inner first last =>
      inner.addRegex first last 0 regex) >>= Builder.build := rfl

theorem automaton_search (regex : Regex) :
    regex.automaton .search = (framedSearch.addFiller ⟨0⟩ ⟨2⟩ .lazy >>= fun front =>
      (front.tagged 0 ⟨2⟩ ⟨3⟩ fun inner first last => inner.addRegex first last 0 regex) >>=
        fun middle => middle.addFiller ⟨3⟩ ⟨1⟩ .greedy) >>= Builder.build := by
  simp only [bind_assoc]
  rfl

/-- The automaton of an expression has its states where the expression puts them, unless the states
run out. -/
theorem automaton_sits (regex : Regex) (anchor : Anchor) :
    regex.automaton anchor = .error .statesExhausted ∨ ∃ automaton connections,
      regex.automaton anchor = .ok automaton ∧ automaton.Sits connections regex anchor := by
  cases anchor with
  | full =>
    rw [automaton_full]
    have initialIssued : (⟨0⟩ : StateId).index < framed.states.issued := by decide
    rcases entireMatch_spec holds_framed ⟨1⟩ initialIssued rfl regex with
      exhausted | ⟨after, added, success, places⟩
    · left
      rw [exhausted]
      rfl
    · right
      rcases build_entire places with ⟨automaton, built, sits⟩
      refine ⟨automaton, added, ?_, sits⟩
      rw [success]
      exact built
  | search =>
    rw [automaton_search]
    rcases parts_spec regex rfl with
      exhausted | ⟨early, middle, after, first, second, third, success, parts⟩
    · left
      rw [exhausted]
      rfl
    · right
      rcases parts.build with ⟨automaton, built, sits⟩
      refine ⟨automaton, _, ?_, sits⟩
      rw [success]
      exact built

/-- The automaton of an expression lays out the expression, unless the states run out. -/
theorem automaton_spec (regex : Regex) (anchor : Anchor) :
    regex.automaton anchor = .error .statesExhausted ∨ ∃ automaton connections,
      regex.automaton anchor = .ok automaton ∧
      automaton.Lays connections (regex.anchored anchor) ∧ automaton.WellTagged ∧
      automaton.groups.map Group.number = List.range (regex.groupCount + 1) := by
  rcases regex.automaton_sits anchor with exhausted | ⟨automaton, connections, built, sits⟩
  · exact Or.inl exhausted
  · exact Or.inr ⟨automaton, connections, built, sits.lays, sits.tagged, sits.numbers⟩

end Regex

end TaggedRegex
