import TaggedRegex.Proofs.Automaton.Layout

set_option autoImplicit false

/-!
What laying out an expression does to an automaton under construction. New arms lead out of the
first state and of new states only, so the layouts of the parts stay as they are when the rest is
added.
-/

namespace TaggedRegex

namespace Builder

/-- The state is handed out on the way from `before` to `after`. -/
def New (before after : Builder) (state : StateId) : Prop :=
  before.states.issued ≤ state.index ∧ state.index < after.states.issued

/-- Something has been laid out from `head` on. The connections that were added lead out of `head`
and of new states; `kind` says what the arms of `head` are like, and the other states have a shape.
Whatever plan agrees about the new states satisfies `lays`. -/
structure Places (before : Builder) (connections : List Connection) (after : Builder)
    (added : List Connection) (head : StateId) (count : Nat) (kind : List Arm → Prop)
    (lays : Plan → List Arm → Prop) : Prop where
  grows : before.Grows connections after added
  inside : ∀ connection ∈ added, connection.source = head ∨ before.New after connection.source
  counted : after.groups.length = before.groups.length + count
  kind : kind (armsOf added head)
  shape : ∀ state, state ≠ head → Shape (armsOf added state)
  lays : ∀ plan : Plan, (∀ state, before.New after state →
    plan.Leaves state (armsOf added state)) → lays plan (armsOf added head)

/-- A step that places something, unless it runs out of states. -/
def WillPlace (before : Builder) (connections : List Connection) (outcome : Except Fault Builder)
    (head : StateId) (count : Nat) (kind : List Arm → Prop) (lays : Plan → List Arm → Prop) :
    Prop :=
  outcome = .error .statesExhausted ∨ ∃ after added, outcome = .ok after ∧
    before.Places connections after added head count kind lays

section

variable {before after : Builder} {connections added : List Connection} {head : StateId}
  {count : Nat} {kind : List Arm → Prop} {lays : Plan → List Arm → Prop}

theorem Places.armsOf_outside
    (places : before.Places connections after added head count kind lays) {state : StateId}
    (other : state ≠ head) (old : ¬ before.New after state) : armsOf added state = [] := by
  apply armsOf_eq_nil
  rintro connection member rfl
  exact (places.inside connection member).elim other old

theorem Places.mono (places : before.Places connections after added head count kind lays)
    {wider : List Arm → Prop} {weaker : Plan → List Arm → Prop}
    (kinds : ∀ arms, kind arms → wider arms)
    (layouts : ∀ plan arms, kind arms → lays plan arms → weaker plan arms) :
    before.Places connections after added head count wider weaker :=
  ⟨places.grows, places.inside, places.counted, kinds _ places.kind, places.shape,
    fun plan agrees => layouts plan _ places.kind (places.lays plan agrees)⟩

theorem WillPlace.mono {outcome : Except Fault Builder}
    (placed : before.WillPlace connections outcome head count kind lays)
    {wider : List Arm → Prop} {weaker : Plan → List Arm → Prop}
    (kinds : ∀ arms, kind arms → wider arms)
    (layouts : ∀ plan arms, kind arms → lays plan arms → weaker plan arms) :
    before.WillPlace connections outcome head count wider weaker := by
  rcases placed with exhausted | ⟨after, added, success, places⟩
  · exact Or.inl exhausted
  · exact Or.inr ⟨after, added, success, places.mono kinds layouts⟩

end

/-- Connections that were asked for lead out of the sources that were named. -/
theorem source_of_requests {added : List Connection} {requests : List (StateId × Arm)}
    (listed : added.map (fun connection => (connection.source, connection.arm)) = requests)
    {connection : Connection} (member : connection ∈ added) :
    ∃ arm, (connection.source, arm) ∈ requests := by
  refine ⟨connection.arm, ?_⟩
  rw [← listed]
  exact List.mem_map.2 ⟨connection, member, rfl⟩

/-- Arms out of one state. -/
theorem places_connectAll {builder : Builder} {connections : List Connection}
    (holds : builder.Holds connections) {head : StateId}
    (issued : head.index < builder.states.issued) (arms : List Arm)
    (untagged : ∀ arm ∈ arms, arm.tag = none) :
    builder.WillPlace connections (.ok (builder.connectAll (arms.map fun arm => (head, arm))))
      head 0 (fun headArms => headArms = arms) fun _ _ => True := by
  right
  have sources : ∀ request ∈ arms.map fun arm => (head, arm), request.1 = head := by
    intro request member
    obtain ⟨arm, -, rfl⟩ := List.mem_map.1 member
    rfl
  rcases holds.connectAll (arms.map fun arm => (head, arm))
    (fun request member => by rw [sources request member]; exact issued)
    (fun request member tag carries => by
      obtain ⟨arm, armMember, rfl⟩ := List.mem_map.1 member
      rw [untagged arm armMember] at carries
      cases carries) with ⟨added, grows, listed, states, groups⟩
  have source : ∀ connection ∈ added, connection.source = head := by
    intro connection member
    rcases source_of_requests listed member with ⟨arm, request⟩
    exact sources _ request
  refine ⟨_, added, rfl, grows, fun connection member => Or.inl (source connection member),
    congrArg List.length groups, ?_, ?_, fun _ _ => trivial⟩
  · rw [armsOf_of_requests listed, List.filter_eq_self.2, List.map_map]
    · exact List.map_id arms
    · exact fun request member => decide_eq_true (sources request member)
  · intro state other
    rw [armsOf_eq_nil]
    · exact .nil
    · intro connection member
      rw [source connection member]
      exact Ne.symm other

/-- A body between two new states, with arms out of `head` and out of the last state around it. -/
theorem Places.around {builder start middle after : Builder}
    {connections early body late : List Connection} {head first last : StateId}
    {count : Nat} (kind : List Arm → Prop) {layout : Plan → Prop}
    (issued : head.index < builder.states.issued)
    (firstIndex : first.index = builder.states.issued)
    (lastIndex : last.index = builder.states.issued + 1)
    (opens : builder.Grows connections start early)
    (states : start.states.issued = builder.states.issued + 2)
    (groups : start.groups.length = builder.groups.length)
    (earlySources : ∀ connection ∈ early, connection.source = head)
    (places : start.Places (connections ++ early) middle body first count Shape
      fun plan arms => plan.Leaves first arms → layout plan)
    (closes : middle.Grows (connections ++ early ++ body) after late)
    (lateStates : after.states = middle.states) (lateGroups : after.groups = middle.groups)
    (lateSources : ∀ connection ∈ late, connection.source = head ∨ connection.source = last)
    (headKind : kind (armsOf early head ++ armsOf late head))
    (lastShape : Shape (armsOf late last)) :
    builder.Places connections after (early ++ (body ++ late)) head count kind
      fun plan _ => layout plan ∧ plan.Leaves last (armsOf late last) := by
  have grown := places.grows.issued
  have closed : after.states.issued = middle.states.issued := congrArg Supply.issued lateStates
  have earlyElsewhere : ∀ state, state ≠ head → armsOf early state = [] := by
    intro state other
    apply armsOf_eq_nil
    intro connection member
    rw [earlySources connection member]
    exact Ne.symm other
  have lateElsewhere : ∀ state, state ≠ head → state ≠ last → armsOf late state = [] := by
    intro state notHead notLast
    apply armsOf_eq_nil
    rintro connection member rfl
    exact (lateSources connection member).elim notHead notLast
  have headOld : ∀ state : StateId, builder.states.issued ≤ state.index → state ≠ head := by
    rintro state le rfl
    omega
  have lastOutside : armsOf body last = [] := by
    apply places.armsOf_outside
    · rintro rfl
      omega
    · rintro ⟨le, -⟩
      omega
  have headOutside : armsOf body head = [] := by
    apply places.armsOf_outside
    · rintro rfl
      omega
    · rintro ⟨le, -⟩
      omega
  have whole : ∀ state, armsOf (early ++ (body ++ late)) state =
      armsOf early state ++ (armsOf body state ++ armsOf late state) := by
    intro state
    rw [armsOf_append, armsOf_append]
  have atLast : armsOf (early ++ (body ++ late)) last = armsOf late last := by
    rw [whole, lastOutside, earlyElsewhere last (headOld last (by omega))]
    rfl
  have atBody : ∀ state, state ≠ head → state ≠ last →
      armsOf (early ++ (body ++ late)) state = armsOf body state := by
    intro state notHead notLast
    rw [whole, earlyElsewhere state notHead, lateElsewhere state notHead notLast,
      List.append_nil, List.nil_append]
  refine ⟨opens.trans (places.grows.trans closes), ?_, ?_, ?_, ?_, ?_⟩
  · intro connection member
    rcases List.mem_append.1 member with inEarly | later
    · exact Or.inl (earlySources connection inEarly)
    · rcases List.mem_append.1 later with inBody | inLate
      · right
        rcases places.inside connection inBody with rfl | ⟨le, lt⟩
        · exact ⟨by omega, by omega⟩
        · exact ⟨by omega, by omega⟩
      · rcases lateSources connection inLate with atHead | rfl
        · exact Or.inl atHead
        · right
          exact ⟨by omega, by omega⟩
  · rw [lateGroups, places.counted, groups]
  · rw [whole, headOutside]
    exact headKind
  · intro state notHead
    by_cases isLast : state = last
    · rw [isLast, atLast]
      exact lastShape
    · rw [atBody state notHead isLast]
      by_cases isFirst : state = first
      · rw [isFirst]
        exact places.kind
      · exact places.shape state isFirst
  · intro plan agrees
    have atFirst : armsOf (early ++ (body ++ late)) first = armsOf body first := by
      apply atBody
      · exact headOld first (by omega)
      · rintro rfl
        omega
    have firstLeaves := agrees first ⟨by omega, by omega⟩
    have lastLeaves := agrees last ⟨by omega, by omega⟩
    rw [atFirst] at firstLeaves
    rw [atLast] at lastLeaves
    refine ⟨places.lays plan ?_ firstLeaves, lastLeaves⟩
    rintro state ⟨le, lt⟩
    have leaves := agrees state ⟨by omega, by omega⟩
    rw [atBody state (headOld state (by omega))] at leaves
    · exact leaves
    · rintro rfl
      omega

/-- One thing behind another: the second begins at a new state where the first ends. -/
theorem Places.behind {builder start middle after : Builder}
    {connections front back : List Connection} {head between : StateId} {frontCount backCount : Nat}
    {kind : List Arm → Prop} {layout next : Plan → Prop}
    (issued : head.index < builder.states.issued)
    (index : between.index = builder.states.issued)
    (opens : builder.Grows connections start [])
    (states : start.states.issued = builder.states.issued + 1)
    (groups : start.groups = builder.groups)
    (first : start.Places connections middle front head frontCount kind
      fun plan arms => plan.Leaves head arms → layout plan)
    (second : middle.Places (connections ++ front) after back between backCount Shape
      fun plan arms => plan.Leaves between arms → next plan) :
    builder.Places connections after (front ++ back) head (frontCount + backCount) kind
      fun plan arms => plan.Leaves head arms → layout plan ∧ next plan := by
  have grown := first.grows.issued
  have grownAgain := second.grows.issued
  have frontOutside : ∀ state : StateId, state ≠ head →
      state.index < start.states.issued ∨ middle.states.issued ≤ state.index →
      armsOf front state = [] := by
    intro state other outside
    apply first.armsOf_outside other
    rintro ⟨le, lt⟩
    omega
  have backOutside : ∀ state : StateId, state ≠ between → state.index < middle.states.issued →
      armsOf back state = [] := by
    intro state other outside
    apply second.armsOf_outside other
    rintro ⟨le, lt⟩
    omega
  have headNot : ∀ state : StateId, builder.states.issued ≤ state.index → state ≠ head := by
    rintro state le rfl
    omega
  have headNotBetween : head ≠ between := by
    rintro rfl
    omega
  refine ⟨?_, ?_, ?_, ?_, ?_, ?_⟩
  · have opened := opens.trans (List.append_nil connections ▸ first.grows)
    rw [List.nil_append] at opened
    exact opened.trans second.grows
  · intro connection member
    rcases List.mem_append.1 member with inFront | inBack
    · rcases first.inside connection inFront with atHead | ⟨le, lt⟩
      · exact Or.inl atHead
      · exact Or.inr ⟨by omega, by omega⟩
    · right
      rcases second.inside connection inBack with rfl | ⟨le, lt⟩
      · exact ⟨by omega, by omega⟩
      · exact ⟨by omega, by omega⟩
  · rw [second.counted, first.counted, groups]
    omega
  · rw [armsOf_append, backOutside head headNotBetween (by omega), List.append_nil]
    exact first.kind
  · intro state notHead
    rw [armsOf_append]
    by_cases inFront : start.states.issued ≤ state.index ∧ state.index < middle.states.issued
    · have notBetween : state ≠ between := by
        rintro rfl
        omega
      rw [backOutside state notBetween inFront.2, List.append_nil]
      exact first.shape state notHead
    · rw [frontOutside state notHead (by omega), List.nil_append]
      by_cases isBetween : state = between
      · rw [isBetween]
        exact second.kind
      · exact second.shape state isBetween
  · intro plan agrees headLeaves
    have notNew : ∀ state : StateId, builder.states.issued ≤ state.index →
        state.index < after.states.issued →
        plan.Leaves state (armsOf front state ++ armsOf back state) := by
      intro state le lt
      rw [← armsOf_append]
      exact agrees state ⟨le, lt⟩
    rw [armsOf_append, backOutside head headNotBetween (by omega), List.append_nil] at headLeaves
    constructor
    · apply first.lays plan ?_ headLeaves
      rintro state ⟨le, lt⟩
      have leaves := notNew state (by omega) (by omega)
      rw [backOutside state (by rintro rfl; omega) lt, List.append_nil] at leaves
      exact leaves
    · apply second.lays plan
      · rintro state ⟨le, lt⟩
        have leaves := notNew state (by omega) lt
        rw [frontOutside state (headNot state (by omega)) (by omega), List.nil_append] at leaves
        exact leaves
      · have leaves := notNew between (by omega) (by omega)
        rw [frontOutside between headNotBetween.symm (by omega), List.nil_append] at leaves
        exact leaves

/-- Two things that begin at the same state. -/
theorem Places.beside {builder middle after : Builder}
    {connections front back : List Connection} {head : StateId} {frontCount backCount : Nat}
    {kind otherKind : List Arm → Prop} {layout next : Plan → List Arm → Prop}
    (issued : head.index < builder.states.issued)
    (first : builder.Places connections middle front head frontCount kind layout)
    (second : middle.Places (connections ++ front) after back head backCount otherKind next) :
    builder.Places connections after (front ++ back) head (frontCount + backCount)
      (fun arms => ∃ early late, arms = early ++ late ∧ kind early ∧ otherKind late)
      fun plan arms => ∃ early late, arms = early ++ late ∧ kind early ∧ layout plan early ∧
        next plan late := by
  have grown := first.grows.issued
  have grownAgain := second.grows.issued
  have apart : ∀ state, state ≠ head → armsOf front state = [] ∨ armsOf back state = [] := by
    intro state notHead
    by_cases isNew : builder.New middle state
    · right
      apply second.armsOf_outside notHead
      rintro ⟨le, -⟩
      have lt := isNew.2
      omega
    · left
      exact first.armsOf_outside notHead isNew
  refine ⟨first.grows.trans second.grows, ?_, ?_, ?_, ?_, ?_⟩
  · intro connection member
    rcases List.mem_append.1 member with inFront | inBack
    · rcases first.inside connection inFront with atHead | ⟨le, lt⟩
      · exact Or.inl atHead
      · exact Or.inr ⟨le, by omega⟩
    · rcases second.inside connection inBack with atHead | ⟨le, lt⟩
      · exact Or.inl atHead
      · exact Or.inr ⟨by omega, lt⟩
  · rw [second.counted, first.counted]
    omega
  · exact ⟨_, _, armsOf_append front back head, first.kind, second.kind⟩
  · intro state notHead
    rw [armsOf_append]
    rcases apart state notHead with none | none
    · rw [none, List.nil_append]
      exact second.shape state notHead
    · rw [none, List.append_nil]
      exact first.shape state notHead
  · intro plan agrees
    refine ⟨_, _, armsOf_append front back head, first.kind, ?_, ?_⟩
    · apply first.lays plan
      rintro state ⟨le, lt⟩
      have leaves := agrees state ⟨le, by omega⟩
      have notHead : state ≠ head := by
        rintro rfl
        omega
      have outside : armsOf back state = [] := by
        apply second.armsOf_outside notHead
        rintro ⟨later, -⟩
        omega
      rw [armsOf_append, outside, List.append_nil] at leaves
      exact leaves
    · apply second.lays plan
      rintro state ⟨le, lt⟩
      have leaves := agrees state ⟨by omega, lt⟩
      have notHead : state ≠ head := by
        rintro rfl
        omega
      have outside : armsOf front state = [] := by
        apply first.armsOf_outside notHead
        rintro ⟨-, earlier⟩
        omega
      rw [armsOf_append, outside, List.nil_append] at leaves
      exact leaves

end Builder

end TaggedRegex
