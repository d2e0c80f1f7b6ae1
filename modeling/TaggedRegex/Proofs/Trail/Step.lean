import TaggedRegex.Proofs.Automaton.Layout
import TaggedRegex.Proofs.Trail.Completion

set_option autoImplicit false

/-!
The first step of a completion. It crosses one of the arms of its state, and a completion from where
an arm leads can be begun with that arm.
-/

namespace TaggedRegex

/-- Crossing an edge with the label takes `consumed` characters read, and `rest` ahead, to
`consumed'` and `rest'`. -/
inductive Label.Passes : Label → List Char → Nat → List Char → Nat → Prop
  | epsilon (rest : List Char) (consumed : Nat) : Passes .epsilon rest consumed rest consumed
  | chars {range : CharRange} {c : Char} (rest : List Char) (consumed : Nat) :
      c ∈ range → Passes (.chars range) (c :: rest) consumed rest (consumed + 1)
  | atEnd (consumed : Nat) : Passes .atEnd [] consumed [] consumed

variable {automaton : Automaton} {connections : List Connection}

namespace Automaton

/-- A connection can be taken in front of a completion. -/
theorem Draws.completes_step (draws : automaton.Draws connections) {connection : Connection}
    (member : connection ∈ connections) {rest rest' : List Char} {consumed consumed' : Nat}
    (passes : connection.label.Passes rest consumed rest' consumed') {trail : Trail}
    (completes : automaton.Completes rest' consumed' connection.edge.target trail) :
    automaton.Completes rest consumed connection.source
      (⟨connection.edge, consumed'⟩ :: trail) := by
  obtain ⟨source, label, edge⟩ := connection
  cases passes with
  | epsilon => exact .free (draws.mem_edgesAt.2 member) completes
  | chars _ _ inside => exact .read (draws.mem_onChar.2 ⟨_, member, inside⟩) completes
  | atEnd => exact .atEnd (draws.mem_edgesAt.2 member) completes

/-- A completion that is not over takes one of the connections out of its state. -/
theorem Draws.step_of_completes (draws : automaton.Draws connections) {state : StateId}
    (goesOn : state ≠ automaton.accept) {rest : List Char} {consumed : Nat} {trail : Trail}
    (completes : automaton.Completes rest consumed state trail) :
    ∃ connection ∈ exitsOf connections state, ∃ rest' consumed' later,
      connection.label.Passes rest consumed rest' consumed' ∧
      trail = ⟨connection.edge, consumed'⟩ :: later ∧
      automaton.Completes rest' consumed' connection.edge.target later := by
  cases completes with
  | done => exact absurd rfl goesOn
  | @free _ _ _ edge _ member later =>
    have exit := mem_exitsOf.2 ⟨draws.mem_edgesAt.1 member, rfl⟩
    exact ⟨_, exit, _, _, _, .epsilon rest consumed, rfl, later⟩
  | @read c _ _ _ edge _ member later =>
    rcases draws.mem_onChar.1 member with ⟨range, listed, inside⟩
    exact ⟨_, mem_exitsOf.2 ⟨listed, rfl⟩, _, _, _, .chars _ consumed inside, rfl, later⟩
  | @atEnd _ _ edge _ member later =>
    have exit := mem_exitsOf.2 ⟨draws.mem_edgesAt.1 member, rfl⟩
    exact ⟨_, exit, _, _, _, .atEnd consumed, rfl, later⟩

/-- Nothing but the empty completion begins at the accepting state, if it has no arms. -/
theorem Draws.completes_accept (draws : automaton.Draws connections)
    (stops : armsOf connections automaton.accept = []) {rest : List Char} {consumed : Nat}
    {trail : Trail} (completes : automaton.Completes rest consumed automaton.accept trail) :
    rest = [] ∧ trail = [] := by
  have none : ∀ {label edge}, (⟨automaton.accept, label, edge⟩ : Connection) ∉ connections := by
    intro label edge member
    have arm := List.mem_map_of_mem (f := Connection.arm) (mem_exitsOf.2 ⟨member, rfl⟩)
    rw [← armsOf, stops] at arm
    cases arm
  generalize final : automaton.accept = state at completes
  cases completes with
  | done => exact ⟨rfl, rfl⟩
  | free member _ =>
    rw [← final] at member
    exact absurd (draws.mem_edgesAt.1 member) none
  | read member _ =>
    rw [← final] at member
    rcases draws.mem_onChar.1 member with ⟨range, listed, -⟩
    exact absurd listed none
  | atEnd member _ =>
    rw [← final] at member
    exact absurd (draws.mem_edgesAt.1 member) none

end Automaton

namespace Plan.Leaves

variable {state : StateId} {arms : List Arm}

/-- A completion from a laid out state crosses one of its arms. -/
theorem step (leaves : (automaton.plan connections).Leaves state arms)
    (draws : automaton.Draws connections) {rest : List Char} {consumed : Nat} {trail : Trail}
    (completes : automaton.Completes rest consumed state trail) :
    ∃ arm ∈ arms, ∃ edge rest' consumed' later, edge.tag = arm.tag ∧
      arm.label.Passes rest consumed rest' consumed' ∧ trail = ⟨edge, consumed'⟩ :: later ∧
      automaton.Completes rest' consumed' arm.target later := by
  rcases draws.step_of_completes leaves.goesOn completes with
    ⟨connection, exit, rest', consumed', later, passes, same, next⟩
  have member : connection.arm ∈ arms := by
    rw [← leaves.arms]
    exact List.mem_map_of_mem exit
  exact ⟨connection.arm, member, connection.edge, rest', consumed', later, rfl, passes, same, next⟩

/-- With one epsilon edge a completion has no choice. -/
theorem step_one {arm : Arm} (leaves : (automaton.plan connections).Leaves state [arm])
    (draws : automaton.Draws connections) (epsilon : arm.label = .epsilon) {rest : List Char}
    {consumed : Nat} {trail : Trail} (completes : automaton.Completes rest consumed state trail) :
    ∃ edge later, edge.tag = arm.tag ∧ trail = ⟨edge, consumed⟩ :: later ∧
      automaton.Completes rest consumed arm.target later := by
  rcases leaves.step draws completes with
    ⟨other, member, edge, rest', consumed', later, tag, passes, rfl, next⟩
  rw [List.mem_singleton.1 member] at tag passes next
  rw [epsilon] at passes
  cases passes
  exact ⟨edge, later, tag, rfl, next⟩

/-- Of two epsilon edges a completion crosses one. -/
theorem edges_choice {first second : StateId} {enter leave : Priority}
    (leaves : (automaton.plan connections).Leaves state
      [.epsilon first enter, .epsilon second leave])
    (draws : automaton.Draws connections) :
    ∃ entering leaving : Edge, entering.tag = none ∧ leaving.tag = none ∧
      entering.priority = enter ∧ leaving.priority = leave ∧
      ∀ {rest : List Char} {consumed : Nat} {trail : Trail},
        automaton.Completes rest consumed state trail →
        (∃ later, trail = ⟨entering, consumed⟩ :: later ∧
          automaton.Completes rest consumed first later) ∨
        ∃ later, trail = ⟨leaving, consumed⟩ :: later ∧
          automaton.Completes rest consumed second later := by
  obtain ⟨entering, others, exits, enterArm, othersListed⟩ := List.map_eq_cons_iff.1 leaves.arms
  obtain ⟨leaving, rfl, leaveArm⟩ := List.map_eq_singleton_iff.1 othersListed
  refine ⟨entering.edge, leaving.edge, congrArg Arm.tag enterArm, congrArg Arm.tag leaveArm,
    congrArg Arm.priority enterArm, congrArg Arm.priority leaveArm, ?_⟩
  intro rest consumed trail completes
  obtain ⟨connection, exit, rest', consumed', later, passes, rfl, next⟩ :=
    draws.step_of_completes leaves.goesOn completes
  rw [exits] at exit
  obtain rfl | exit := List.mem_cons.1 exit
  · rw [show connection.label = .epsilon from congrArg Arm.label enterArm] at passes
    rw [show connection.edge.target = first from congrArg Arm.target enterArm] at next
    cases passes
    exact Or.inl ⟨later, rfl, next⟩
  · obtain rfl := List.mem_singleton.1 exit
    rw [show connection.label = .epsilon from congrArg Arm.label leaveArm] at passes
    rw [show connection.edge.target = second from congrArg Arm.target leaveArm] at next
    cases passes
    exact Or.inr ⟨later, rfl, next⟩

/-- A completion that may enter a repetition or leave it does one of the two. -/
theorem step_choice {first second : StateId} {enter leave : Priority}
    (leaves : (automaton.plan connections).Leaves state
      [.epsilon first enter, .epsilon second leave])
    (draws : automaton.Draws connections) {rest : List Char} {consumed : Nat} {trail : Trail}
    (completes : automaton.Completes rest consumed state trail) :
    ∃ edge later, edge.tag = none ∧ trail = ⟨edge, consumed⟩ :: later ∧
      (automaton.Completes rest consumed first later ∨
        automaton.Completes rest consumed second later) := by
  obtain ⟨entering, leaving, enterTag, leaveTag, -, -, choice⟩ := leaves.edges_choice draws
  obtain ⟨later, same, next⟩ | ⟨later, same, next⟩ := choice completes
  · exact ⟨entering, later, enterTag, same, Or.inl next⟩
  · exact ⟨leaving, later, leaveTag, same, Or.inr next⟩

/-- All completions from a state with one edge for characters cross that edge. -/
theorem edge_read {range : CharRange} {target : StateId}
    (leaves : (automaton.plan connections).Leaves state [.read range target])
    (draws : automaton.Draws connections) :
    ∃ edge : Edge, edge.tag = none ∧
      ∀ {rest : List Char} {consumed : Nat} {trail : Trail},
        automaton.Completes rest consumed state trail → ∃ c rest' later, rest = c :: rest' ∧
          trail = ⟨edge, consumed + 1⟩ :: later ∧
          automaton.Completes rest' (consumed + 1) target later := by
  obtain ⟨reading, exits, arm⟩ := List.map_eq_singleton_iff.1 leaves.arms
  refine ⟨reading.edge, congrArg Arm.tag arm, ?_⟩
  intro rest consumed trail completes
  obtain ⟨connection, exit, rest', consumed', later, passes, rfl, next⟩ :=
    draws.step_of_completes leaves.goesOn completes
  rw [exits] at exit
  obtain rfl := List.mem_singleton.1 exit
  rw [show connection.label = .chars range from congrArg Arm.label arm] at passes
  rw [show connection.edge.target = target from congrArg Arm.target arm] at next
  cases passes
  exact ⟨_, rest', later, rfl, rfl, next⟩

/-- A completion from where an arm leads can be begun with the arm. -/
theorem completes (leaves : (automaton.plan connections).Leaves state arms)
    (draws : automaton.Draws connections) {arm : Arm} (member : arm ∈ arms) {rest rest' : List Char}
    {consumed consumed' : Nat} (passes : arm.label.Passes rest consumed rest' consumed')
    {later : Trail} (completes : automaton.Completes rest' consumed' arm.target later) :
    ∃ edge : Edge, edge.tag = arm.tag ∧
      automaton.Completes rest consumed state (⟨edge, consumed'⟩ :: later) := by
  rw [← leaves.arms] at member
  obtain ⟨connection, exit, rfl⟩ := List.mem_map.1 member
  obtain ⟨listed, rfl⟩ := mem_exitsOf.1 exit
  exact ⟨connection.edge, rfl, draws.completes_step listed passes completes⟩

end Plan.Leaves

end TaggedRegex
