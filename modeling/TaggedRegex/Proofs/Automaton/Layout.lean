import TaggedRegex.Automaton.OfRegex
import TaggedRegex.Proofs.Automaton.Shape

set_option autoImplicit false

/-!
How an expression lies between two states. The arms of every state inside are known, so a path that
enters at the first state can only go on as the expression says, until it leaves at the last one.
-/

namespace TaggedRegex

namespace Arm

/-- An epsilon edge without a tag. -/
def epsilon (target : StateId) (priority : Priority) : Arm := ⟨.epsilon, target, priority, none⟩

/-- An edge that reads a character of a range. -/
def read (range : CharRange) (target : StateId) : Arm := ⟨.chars range, target, .normal, none⟩

/-- An epsilon edge with a tag. -/
def cross (target : StateId) (tag : Tag) : Arm := ⟨.epsilon, target, .normal, some tag⟩

end Arm

namespace Quantifier

/-- The arms with which a repetition begins. -/
def headArms (quantifier : Quantifier) (greed : Greed) (first tail : StateId) : List Arm :=
  match quantifier with
  | .star => [.epsilon first greed.enter, .epsilon tail greed.leave]
  | .plus => [.epsilon first .normal]
  | .opt => [.epsilon first greed.enter, .epsilon tail greed.leave]

/-- The arms behind the body of a repetition. -/
def lastArms (quantifier : Quantifier) (greed : Greed) (first tail : StateId) : List Arm :=
  match quantifier with
  | .star => [.epsilon first greed.enter, .epsilon tail greed.leave]
  | .plus => [.epsilon first greed.enter, .epsilon tail greed.leave]
  | .opt => [.epsilon tail .normal]

end Quantifier

/-- A layout: the arms of every state, and the state at which paths may end. -/
structure Plan where
  arms : StateId → List Arm
  accept : StateId

namespace Plan

/-- Exactly these arms lead on from the state, and no path ends there. -/
structure Leaves (plan : Plan) (state : StateId) (arms : List Arm) : Prop where
  goesOn : state ≠ plan.accept
  arms : plan.arms state = arms

mutual

/-- The expression lies between `head` and `tail`; its groups are numbered from `number` on. -/
def Lays (plan : Plan) (number : Nat) (head tail : StateId) : Regex → Prop
  | .any => plan.Leaves head [.read .all tail]
  | .lit c => plan.Leaves head [.read (.single c) tail]
  | .set ranges => plan.Leaves head (ranges.map fun range => .read range tail)
  | .atEnd => plan.Leaves head [⟨.atEnd, tail, .normal, none⟩]
  | .group body => ∃ first last,
      plan.Leaves head [.cross first ⟨number, .opening⟩] ∧
      plan.Lays (number + 1) first last body ∧
      plan.Leaves last [.cross tail ⟨number, .closing⟩]
  | .rep quantifier greed body => ∃ first last,
      plan.Leaves head (quantifier.headArms greed first tail) ∧
      plan.Lays number first last body ∧
      plan.Leaves last (quantifier.lastArms greed first tail)
  | .alt branches => ∃ arms, plan.Leaves head arms ∧
      plan.LaysBranches number tail .normal arms branches
  | .cat items => plan.LaysItems number head tail items

/-- The branches lie behind these arms, and each of them leads to `tail`. -/
def LaysBranches (plan : Plan) (number : Nat) (tail : StateId) (priority : Priority)
    (arms : List Arm) : List Regex → Prop
  | [] => arms = []
  | branch :: rest => ∃ first last others,
      arms = .epsilon first priority :: others ∧
      plan.Lays number first last branch ∧
      plan.Leaves last [.epsilon tail .normal] ∧
      plan.LaysBranches (number + branch.groupCount) tail .low others rest

/-- The expressions lie one behind the other. -/
def LaysItems (plan : Plan) (number : Nat) (head tail : StateId) : List Regex → Prop
  | [] => plan.Leaves head [.epsilon tail .normal]
  | [last] => plan.Lays number head tail last
  | item :: next :: rest => ∃ middle,
      plan.Lays number head middle item ∧
      plan.LaysItems (number + item.groupCount) middle tail (next :: rest)

end

end Plan

/-- The arms that the connections of an automaton make. -/
def Automaton.plan (automaton : Automaton) (connections : List Connection) : Plan :=
  ⟨armsOf connections, automaton.accept⟩

theorem Group.inside_eq_ok {number parent : Nat} {group : Group}
    (success : Group.inside number parent = .ok group) : group = ⟨number, parent⟩ := by
  unfold Group.inside at success
  split at success
  · exact (Except.ok.inj success).symm
  · cases success

namespace Builder

/-- The builder has made these connections, out of states that have been handed out, and its groups
are numbered without a gap. -/
structure Holds (builder : Builder) (connections : List Connection) : Prop where
  records : Records builder.rows builder.connected connections
  sources : ∀ connection ∈ connections, connection.source.index < builder.states.issued
  dense : builder.groups.map Group.number = List.range builder.groups.length

/-- The builder has gone on from `before`, with these connections added. -/
structure Grows (before : Builder) (connections : List Connection) (after : Builder)
    (added : List Connection) : Prop where
  holds : after.Holds (connections ++ added)
  issued : before.states.issued ≤ after.states.issued
  initial : after.initial = before.initial
  accept : after.accept = before.accept
  groups : before.groups.length ≤ after.groups.length
  tags : ∀ connection ∈ added, ∀ tag, connection.edge.tag = some tag →
    tag.group < after.groups.length

theorem Grows.refl {builder : Builder} {connections : List Connection}
    (holds : builder.Holds connections) : builder.Grows connections builder [] := by
  refine ⟨?_, Nat.le_refl _, rfl, rfl, Nat.le_refl _,
    fun _ member => absurd member List.not_mem_nil⟩
  rw [List.append_nil]
  exact holds

theorem Grows.trans {before middle after : Builder} {connections first second : List Connection}
    (early : before.Grows connections middle first)
    (late : middle.Grows (connections ++ first) after second) :
    before.Grows connections after (first ++ second) := by
  refine ⟨?_, Nat.le_trans early.issued late.issued, late.initial.trans early.initial,
    late.accept.trans early.accept, Nat.le_trans early.groups late.groups, ?_⟩
  · rw [← List.append_assoc]
    exact late.holds
  · intro connection member tag carries
    rcases List.mem_append.1 member with old | new
    · exact Nat.lt_of_lt_of_le (early.tags connection old tag carries) late.groups
    · exact late.tags connection new tag carries

theorem freshState_cases (supply : Supply) :
    supply.freshState = .error .statesExhausted ∨
      supply.freshState = .ok (⟨supply.issued⟩, ⟨supply.issued + 1⟩) := by
  unfold Supply.freshState StateId.ofIndex
  by_cases below : supply.issued < indexLimit
  · right
    rw [if_pos below]
    rfl
  · left
    rw [if_neg below]
    rfl

theorem state_cases (builder : Builder) :
    builder.state = .error .statesExhausted ∨
      builder.state = .ok (⟨builder.states.issued⟩,
        { builder with states := ⟨builder.states.issued + 1⟩ }) := by
  unfold Builder.state
  rcases freshState_cases builder.states with exhausted | fresh
  · left
    rw [exhausted]
    rfl
  · right
    rw [fresh]
    rfl

theorem twoStates_cases (builder : Builder) :
    builder.twoStates = .error .statesExhausted ∨
      builder.twoStates = .ok (⟨builder.states.issued⟩, ⟨builder.states.issued + 1⟩,
        { builder with states := ⟨builder.states.issued + 2⟩ }) := by
  unfold Builder.twoStates
  rcases builder.state_cases with exhausted | first
  · left
    rw [exhausted]
    rfl
  · rw [first]
    rcases state_cases { builder with states := ⟨builder.states.issued + 1⟩ } with
      exhausted | second
    · left
      show (Builder.state _ >>= _) = _
      rw [exhausted]
      rfl
    · right
      show (Builder.state _ >>= _) = _
      rw [second]
      rfl

/-- A new state changes nothing but the supply. -/
theorem state_eq_ok {before after : Builder} {state : StateId}
    (success : before.state = .ok (state, after)) :
    after = { before with states := ⟨before.states.issued + 1⟩ } := by
  obtain exhausted | fresh := before.state_cases
  · rw [exhausted] at success
    cases success
  · rw [fresh] at success
    exact (Prod.mk.inj (Except.ok.inj success)).2.symm

theorem twoStates_eq_ok {before after : Builder} {first last : StateId}
    (success : before.twoStates = .ok (first, last, after)) :
    after = { before with states := ⟨before.states.issued + 2⟩ } := by
  obtain exhausted | fresh := before.twoStates_cases
  · rw [exhausted] at success
    cases success
  · rw [fresh] at success
    exact (Prod.mk.inj (Prod.mk.inj (Except.ok.inj success)).2).2.symm

theorem declareGroup_eq_ok {before declared : Builder} {group : Group}
    (success : before.declareGroup group = .ok declared) :
    declared = { before with groups := group.insertInto before.groups } := by
  unfold declareGroup at success
  split at success
  · cases success
  · exact (Except.ok.inj success).symm

theorem Holds.withStates {builder : Builder} {connections : List Connection}
    (holds : builder.Holds connections) {supply : Supply}
    (le : builder.states.issued ≤ supply.issued) :
    builder.Grows connections { builder with states := supply } [] := by
  refine ⟨?_, le, rfl, rfl, Nat.le_refl _, fun _ member => absurd member List.not_mem_nil⟩
  rw [List.append_nil]
  exact ⟨holds.records, fun connection member =>
    Nat.lt_of_lt_of_le (holds.sources connection member) le, holds.dense⟩

/-- Connects several arms, each with its source. -/
def connectAll (builder : Builder) (requests : List (StateId × Arm)) : Builder :=
  requests.foldl (fun builder request => builder.connect request.1 request.2.label
    request.2.target request.2.priority request.2.tag) builder

/-- What is connected is added, in order. -/
theorem Holds.connectAll {builder : Builder} {connections : List Connection}
    (holds : builder.Holds connections) (requests : List (StateId × Arm))
    (sources : ∀ request ∈ requests, request.1.index < builder.states.issued)
    (tags : ∀ request ∈ requests, ∀ tag, request.2.tag = some tag →
      tag.group < builder.groups.length) :
    ∃ added, builder.Grows connections (builder.connectAll requests) added ∧
      added.map (fun connection => (connection.source, connection.arm)) = requests ∧
      (builder.connectAll requests).states = builder.states ∧
      (builder.connectAll requests).groups = builder.groups := by
  induction requests generalizing builder connections with
  | nil => exact ⟨[], .refl holds, rfl, rfl, rfl⟩
  | cons request rest ih =>
    obtain ⟨source, label, target, priority, tag⟩ := request
    let connection : Connection := ⟨source, label, target, priority, tag, builder.connected⟩
    let next := builder.connect source label target priority tag
    have one : builder.Grows connections next [connection] := by
      refine ⟨⟨holds.records.insert source label target priority tag, ?_, holds.dense⟩,
        Nat.le_refl _, rfl, rfl, Nat.le_refl _, ?_⟩
      · intro other member
        rcases List.mem_append.1 member with old | new
        · exact holds.sources other old
        · rw [List.mem_singleton.1 new]
          exact sources _ (List.mem_cons_self ..)
      · intro other member
        rw [List.mem_singleton.1 member]
        exact tags _ (List.mem_cons_self ..)
    rcases ih one.holds (fun other member => sources other (List.mem_cons_of_mem _ member))
      (fun other member => tags other (List.mem_cons_of_mem _ member)) with
      ⟨added, grows, listed, states, groups⟩
    refine ⟨connection :: added, one.trans grows, ?_, states, groups⟩
    rw [List.map_cons, listed]
    rfl

/-- The arms of a state are those that were asked for it. -/
theorem armsOf_of_requests {added : List Connection} {requests : List (StateId × Arm)}
    (listed : added.map (fun connection => (connection.source, connection.arm)) = requests)
    (state : StateId) :
    armsOf added state = (requests.filter fun request => request.1 = state).map Prod.snd := by
  rw [← listed, List.filter_map, List.map_map]
  rfl

end Builder

end TaggedRegex
