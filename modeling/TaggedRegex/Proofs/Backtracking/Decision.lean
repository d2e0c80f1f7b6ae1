import TaggedRegex.Proofs.Backtracking.Matcher
import TaggedRegex.Proofs.Trail.Step

set_option autoImplicit false

/-!
Decisions. An answer settles some ways on if it is a failure and there are none, or if it has the
spans of the first of them. A state with several arms is settled by the answers behind the arms,
asked for in the order of the arms.
-/

namespace TaggedRegex

namespace Trail

/-- The spans of the group with this number. -/
def spansOf (trail : Trail) (group : Nat) : List Span := trail.spans ⟨group, 0⟩

theorem spansOf_of_crossings {trail : Trail} {group : Nat} {firsts limits : List Nat}
    (begins : trail.crossings ⟨group, .opening⟩ = firsts)
    (ends : trail.crossings ⟨group, .closing⟩ = limits) :
    trail.spansOf group =
      (firsts.zip limits).map fun (first, limit) => ⟨first, (limit : Int) - 1⟩ := by
  rw [← begins, ← ends]
  rfl

/-- The spans of a group that is not open are followed by those of what comes next. -/
theorem Closed.spansOf_append {before : Trail} {group : Nat} (closed : before.Closed group)
    (passage : Trail) :
    spansOf (before ++ passage) group = before.spansOf group ++ passage.spansOf group := by
  rw [spansOf_of_crossings (crossings_append ..) (crossings_append ..), List.zip_append closed,
    List.map_append]
  rfl

/-- Where no tag of the group is crossed its spans stay the same. -/
theorem spansOf_append_of_quiet {passage : Trail} {group : Nat}
    (quiet : ∀ boundary, passage.crossings ⟨group, boundary⟩ = []) (before : Trail) :
    spansOf (before ++ passage) group = before.spansOf group := by
  rw [spansOf_of_crossings (crossings_append ..) (crossings_append ..), quiet, quiet,
    List.append_nil, List.append_nil]
  rfl

end Trail

/-- The answer is right about these ways on: it fails if there are none, and otherwise has the spans
of the first of them, all that came before included. -/
def Settles (ways : Trail → Prop) (before : Trail) (answer : Option Progress) : Prop :=
  match answer with
  | none => ∀ trail, ¬ ways trail
  | some final => ∃ trail, ways trail ∧ (∀ other, ways other → trail.NotAfter other) ∧
      ∀ group, final.spans group = (before ++ trail).spansOf group

namespace Settles

variable {ways others : Trail → Prop} {before : Trail} {answer : Option Progress}

theorem congr (settles : Settles ways before answer) (same : ∀ trail, ways trail ↔ others trail) :
    Settles others before answer := by
  have equal : ways = others := funext fun trail => propext (same trail)
  rw [← equal]
  exact settles

/-- The answers agree with the first ways if there are any, and otherwise with the second. -/
theorem orElse {first second : Option Progress} (early : Settles ways before first)
    (late : Settles others before second)
    (apart : ∀ trail other, ways trail → others other → trail.Precedes other) :
    Settles (fun trail => ways trail ∨ others trail) before (first <|> second) := by
  cases first with
  | some final =>
    rcases early with ⟨trail, way, least, spans⟩
    refine ⟨trail, Or.inl way, ?_, spans⟩
    rintro other (same | later)
    · exact least other same
    · exact Or.inr (apart trail other way later)
  | none =>
    apply late.congr
    intro trail
    constructor
    · exact Or.inr
    · rintro (way | later)
      · exact absurd way (early trail)
      · exact later

/-- One edge in front of all ways. -/
theorem cross {crossing : Crossing} (settles : Settles ways (before ++ [crossing]) answer) :
    Settles (fun trail => ∃ later, trail = crossing :: later ∧ ways later) before answer := by
  cases answer with
  | none =>
    rintro trail ⟨later, -, way⟩
    exact settles later way
  | some final =>
    rcases settles with ⟨trail, way, least, spans⟩
    refine ⟨crossing :: trail, ⟨trail, rfl, way⟩, ?_, ?_⟩
    · rintro other ⟨later, rfl, otherWay⟩
      exact (least later otherWay).prepend [crossing]
    · intro group
      rw [spans group, List.append_assoc]
      rfl

end Settles

namespace Automaton

variable {automaton : Automaton} {connections : List Connection}

/-- The completions that begin with one of these connections. -/
def Over (automaton : Automaton) (exits : List Connection) (rest : List Char) (consumed : Nat)
    (trail : Trail) : Prop :=
  ∃ connection ∈ exits, ∃ rest' consumed' later,
    connection.label.Passes rest consumed rest' consumed' ∧
    trail = ⟨connection.edge, consumed'⟩ :: later ∧
    automaton.Completes rest' consumed' connection.edge.target later

theorem Draws.completes_iff (draws : automaton.Draws connections) {state : StateId}
    (goesOn : state ≠ automaton.accept) (rest : List Char) (consumed : Nat) (trail : Trail) :
    automaton.Completes rest consumed state trail ↔
      automaton.Over (exitsOf connections state) rest consumed trail := by
  constructor
  · exact draws.step_of_completes goesOn
  · rintro ⟨connection, exit, rest', consumed', later, passes, rfl, completes⟩
    rcases mem_exitsOf.1 exit with ⟨listed, rfl⟩
    exact draws.completes_step listed passes completes

theorem over_cons (connection : Connection) (exits : List Connection) (rest : List Char)
    (consumed : Nat) (trail : Trail) :
    automaton.Over (connection :: exits) rest consumed trail ↔
      automaton.Over [connection] rest consumed trail ∨
        automaton.Over exits rest consumed trail := by
  simp only [Over, List.mem_cons, List.not_mem_nil, or_false, exists_eq_or_imp, exists_eq_left]

theorem over_epsilon {connection : Connection} (epsilon : connection.label = .epsilon)
    (rest : List Char) (consumed : Nat) (trail : Trail) :
    automaton.Over [connection] rest consumed trail ↔ ∃ later,
      trail = ⟨connection.edge, consumed⟩ :: later ∧
      automaton.Completes rest consumed connection.edge.target later := by
  constructor
  · rintro ⟨other, member, rest', consumed', later, passes, rfl, completes⟩
    obtain rfl := List.mem_singleton.1 member
    rw [epsilon] at passes
    cases passes
    exact ⟨later, rfl, completes⟩
  · rintro ⟨later, rfl, completes⟩
    refine ⟨connection, List.mem_singleton_self _, rest, consumed, later, ?_, rfl, completes⟩
    rw [epsilon]
    exact .epsilon rest consumed

theorem over_atEnd {connection : Connection} (label : connection.label = .atEnd)
    (rest : List Char) (consumed : Nat) (trail : Trail) :
    automaton.Over [connection] rest consumed trail ↔ rest = [] ∧ ∃ later,
      trail = ⟨connection.edge, consumed⟩ :: later ∧
      automaton.Completes rest consumed connection.edge.target later := by
  constructor
  · rintro ⟨other, member, rest', consumed', later, passes, rfl, completes⟩
    obtain rfl := List.mem_singleton.1 member
    rw [label] at passes
    cases passes
    exact ⟨rfl, later, rfl, completes⟩
  · rintro ⟨rfl, later, rfl, completes⟩
    refine ⟨connection, List.mem_singleton_self _, [], consumed, later, ?_, rfl, completes⟩
    rw [label]
    exact .atEnd consumed

theorem over_precedes {first second : List Connection}
    (before : ∀ a ∈ first, ∀ b ∈ second, a.edge.Before b.edge) {rest : List Char} {consumed : Nat}
    {trail other : Trail} (early : automaton.Over first rest consumed trail)
    (late : automaton.Over second rest consumed other) : trail.Precedes other := by
  rcases early with ⟨a, aMember, -, -, -, -, rfl, -⟩
  rcases late with ⟨b, bMember, -, -, -, -, rfl, -⟩
  exact .here (before a aMember b bMember)

/-- One connection is tried, then the others. -/
theorem settles_over_cons {connection : Connection} {exits : List Connection} {rest : List Char}
    {consumed : Nat} {before : Trail} {first second : Option Progress}
    (early : Settles (automaton.Over [connection] rest consumed) before first)
    (late : Settles (automaton.Over exits rest consumed) before second)
    (least : ∀ other ∈ exits, connection.edge.Before other.edge) :
    Settles (automaton.Over (connection :: exits) rest consumed) before (first <|> second) := by
  have apart : ∀ a ∈ [connection], ∀ b ∈ exits, a.edge.Before b.edge := by
    intro a member
    rw [List.mem_singleton.1 member]
    exact least
  apply (early.orElse late fun _ _ => over_precedes apart).congr
  intro trail
  exact (over_cons connection exits rest consumed trail).symm

theorem settles_over_nil (rest : List Char) (consumed : Nat) (before : Trail) :
    Settles (automaton.Over [] rest consumed) before none := by
  rintro trail ⟨connection, member, -⟩
  cases member

/-- What is settled behind an epsilon edge is settled in front of it. -/
theorem settles_over_epsilon {connection : Connection} (epsilon : connection.label = .epsilon)
    {rest : List Char} {consumed : Nat} {before : Trail} {answer : Option Progress}
    (settles : Settles (automaton.Completes rest consumed connection.edge.target)
      (before ++ [⟨connection.edge, consumed⟩]) answer) :
    Settles (automaton.Over [connection] rest consumed) before answer :=
  settles.cross.congr fun trail => (over_epsilon epsilon rest consumed trail).symm

theorem over_read {connection : Connection} {range : CharRange}
    (label : connection.label = .chars range) (c : Char) (rest : List Char) (consumed : Nat)
    (trail : Trail) :
    automaton.Over [connection] (c :: rest) consumed trail ↔ c ∈ range ∧ ∃ later,
      trail = ⟨connection.edge, consumed + 1⟩ :: later ∧
      automaton.Completes rest (consumed + 1) connection.edge.target later := by
  constructor
  · rintro ⟨other, member, rest', consumed', later, passes, rfl, completes⟩
    obtain rfl := List.mem_singleton.1 member
    rw [label] at passes
    cases passes with
    | chars _ _ inside => exact ⟨inside, later, rfl, completes⟩
  · rintro ⟨inside, later, rfl, completes⟩
    refine ⟨connection, List.mem_singleton_self _, rest, consumed + 1, later, ?_, rfl, completes⟩
    rw [label]
    exact .chars rest consumed inside

/-- Edges for ranges that lead to one state: which of them reads the character is of no importance
behind them. -/
theorem settles_over_read {tail : StateId} {c : Char} {rest : List Char} {consumed : Nat}
    {before : Trail} {answer : Option Progress}
    (behind : ∀ edge : Edge, edge.tag = none →
      Settles (automaton.Completes rest (consumed + 1) tail) (before ++ [⟨edge, consumed + 1⟩])
        answer)
    (ranges : List CharRange) {exits : List Connection}
    (listed : exits.map Connection.arm = ranges.map fun range => .read range tail)
    (ordered : exits.Pairwise fun a b => a.edge.seq < b.edge.seq) :
    Settles (automaton.Over exits (c :: rest) consumed) before
      (if ranges.any fun range => c ∈ range then answer else none) := by
  induction ranges generalizing exits with
  | nil =>
    rw [List.map_eq_nil_iff.1 listed]
    exact settles_over_nil _ _ _
  | cons range others ih =>
    rcases List.map_eq_cons_iff.1 listed with ⟨exit, later, rfl, exitArm, laterListed⟩
    rcases List.pairwise_cons.1 ordered with ⟨least, laterOrdered⟩
    have label : exit.label = .chars range := congrArg Arm.label exitArm
    have target : exit.edge.target = tail := congrArg Arm.target exitArm
    have one : Settles (automaton.Over [exit] (c :: rest) consumed) before
        (if c ∈ range then answer else none) := by
      by_cases inside : c ∈ range
      · rw [if_pos inside]
        apply (behind exit.edge (congrArg Arm.tag exitArm)).cross.congr
        intro trail
        rw [over_read label, target]
        exact (and_iff_right inside).symm
      · rw [if_neg inside]
        intro trail way
        exact inside ((over_read label c rest consumed trail).1 way).1
    have joined : ((if c ∈ range then answer else none) <|>
        (if others.any fun range => c ∈ range then answer else none)) =
        if (range :: others).any fun range => c ∈ range then answer else none := by
      rw [List.any_cons]
      by_cases inside : c ∈ range
      · rw [if_pos inside, decide_eq_true inside, Bool.true_or, if_pos rfl]
        cases answer <;> simp
      · rw [if_neg inside, decide_eq_false inside, Bool.false_or]
        rfl
    rw [← joined]
    apply settles_over_cons one (ih laterListed laterOrdered)
    intro other member
    have otherArm := List.mem_map_of_mem (f := Connection.arm) member
    rw [laterListed] at otherArm
    rcases List.mem_map.1 otherArm with ⟨otherRange, -, same⟩
    have exitPriority : exit.edge.priority = .normal := congrArg Arm.priority exitArm
    have otherPriority : other.edge.priority = .normal := (congrArg Arm.priority same).symm
    rw [Edge.before_iff, exitPriority, otherPriority]
    exact Or.inr ⟨rfl, least other member⟩

/-- The answer is right about the completions from a state. -/
def Decides (automaton : Automaton) (state : StateId) (progress : Progress) (before : Trail)
    (answer : Option Progress) : Prop :=
  Settles (automaton.Completes progress.rest progress.consumed state) before answer

end Automaton

namespace Plan.Leaves

open Automaton

variable {automaton : Automaton} {connections : List Connection} {state : StateId}
  {progress : Progress} {before : Trail}

/-- A state is settled once its arms are. -/
theorem decides {arms : List Arm} (leaves : (automaton.plan connections).Leaves state arms)
    (draws : automaton.Draws connections) {answer : Option Progress}
    (settles : ∀ exits : List Connection, exits.map Connection.arm = arms →
      (exits.Pairwise fun a b => a.edge.seq < b.edge.seq) →
      Settles (automaton.Over exits progress.rest progress.consumed) before answer) :
    automaton.Decides state progress before answer := by
  apply (settles (exitsOf connections state) leaves.arms (draws.ordered state)).congr
  intro trail
  exact (draws.completes_iff leaves.goesOn progress.rest progress.consumed trail).symm

/-- With one epsilon edge there is nothing to choose. -/
theorem decides_one {arm : Arm} (leaves : (automaton.plan connections).Leaves state [arm])
    (draws : automaton.Draws connections) (epsilon : arm.label = .epsilon)
    {answer : Option Progress}
    (behind : ∀ edge : Edge, edge.tag = arm.tag →
      automaton.Decides arm.target progress (before ++ [⟨edge, progress.consumed⟩]) answer) :
    automaton.Decides state progress before answer := by
  apply leaves.decides draws
  intro exits listed _
  rcases List.map_eq_singleton_iff.1 listed with ⟨connection, rfl, rfl⟩
  exact settles_over_epsilon epsilon (behind connection.edge rfl)

/-- Entering a repetition and leaving it, in the order that its greed wants. -/
theorem decides_choose {greed : Greed} {first tail : StateId}
    (leaves : (automaton.plan connections).Leaves state
      [.epsilon first greed.enter, .epsilon tail greed.leave])
    (draws : automaton.Draws connections) {again leave : Option Progress}
    (entering : ∀ edge : Edge, edge.tag = none →
      automaton.Decides first progress (before ++ [⟨edge, progress.consumed⟩]) again)
    (leaving : ∀ edge : Edge, edge.tag = none →
      automaton.Decides tail progress (before ++ [⟨edge, progress.consumed⟩]) leave) :
    automaton.Decides state progress before (greed.choose again leave) := by
  apply leaves.decides draws
  intro exits listed _
  rcases List.map_eq_cons_iff.1 listed with ⟨enter, others, rfl, enterArm, othersListed⟩
  rcases List.map_eq_singleton_iff.1 othersListed with ⟨exit, rfl, exitArm⟩
  have enters : Settles (automaton.Over [enter] progress.rest progress.consumed) before again := by
    apply settles_over_epsilon (congrArg Arm.label enterArm)
    have target : enter.edge.target = first := congrArg Arm.target enterArm
    rw [target]
    exact entering enter.edge (congrArg Arm.tag enterArm)
  have exits : Settles (automaton.Over [exit] progress.rest progress.consumed) before leave := by
    apply settles_over_epsilon (congrArg Arm.label exitArm)
    have target : exit.edge.target = tail := congrArg Arm.target exitArm
    rw [target]
    exact leaving exit.edge (congrArg Arm.tag exitArm)
  have enterPriority : enter.edge.priority = greed.enter := congrArg Arm.priority enterArm
  have exitPriority : exit.edge.priority = greed.leave := congrArg Arm.priority exitArm
  cases greed with
  | greedy =>
    apply settles_over_cons enters exits
    intro other member
    rw [List.mem_singleton.1 member, Edge.before_iff]
    exact Or.inl ⟨enterPriority, exitPriority⟩
  | lazy =>
    have swapped : Settles (automaton.Over [exit, enter] progress.rest progress.consumed) before
        (leave <|> again) := by
      apply settles_over_cons exits enters
      intro other member
      rw [List.mem_singleton.1 member, Edge.before_iff]
      exact Or.inl ⟨exitPriority, enterPriority⟩
    apply swapped.congr
    intro trail
    rw [over_cons exit [enter], over_cons enter [exit], or_comm]

/-- An edge for the end of the input is of use only there. -/
theorem decides_atEnd {tail : StateId}
    (leaves : (automaton.plan connections).Leaves state [⟨.atEnd, tail, .normal, none⟩])
    (draws : automaton.Draws connections) {answer : Option Progress}
    (behind : ∀ edge : Edge, edge.tag = none → progress.rest = [] →
      automaton.Decides tail progress (before ++ [⟨edge, progress.consumed⟩]) answer) :
    automaton.Decides state progress before (if progress.rest = [] then answer else none) := by
  apply leaves.decides draws
  intro exits listed _
  rcases List.map_eq_singleton_iff.1 listed with ⟨connection, rfl, arm⟩
  have label : connection.label = .atEnd := congrArg Arm.label arm
  have target : connection.edge.target = tail := congrArg Arm.target arm
  by_cases ended : progress.rest = []
  · rw [if_pos ended]
    apply (behind connection.edge (congrArg Arm.tag arm) ended).cross.congr
    intro trail
    rw [over_atEnd label, target]
    exact (and_iff_right ended).symm
  · rw [if_neg ended]
    intro trail way
    exact ended ((over_atEnd label _ _ trail).1 way).1

/-- Which of several edges reads a character makes no difference. -/
theorem decides_read {ranges : List CharRange} {tail : StateId}
    (leaves : (automaton.plan connections).Leaves state
      (ranges.map fun range => .read range tail))
    (draws : automaton.Draws connections) {goOn : Progress → Option Progress}
    (behind : ∀ (edge : Edge) (c : Char) (rest : List Char), edge.tag = none →
      progress.rest = c :: rest →
      automaton.Decides tail ⟨rest, progress.consumed + 1, progress.spans⟩
        (before ++ [⟨edge, progress.consumed + 1⟩])
        (goOn ⟨rest, progress.consumed + 1, progress.spans⟩)) :
    automaton.Decides state progress before
      (progress.read (fun c => ranges.any fun range => c ∈ range) goOn) := by
  apply leaves.decides draws
  intro exits listed ordered
  obtain ⟨rest, consumed, spans⟩ := progress
  cases rest with
  | nil =>
    rintro trail ⟨connection, member, rest', consumed', later, passes, -⟩
    have arm := List.mem_map_of_mem (f := Connection.arm) member
    rw [listed] at arm
    rcases List.mem_map.1 arm with ⟨range, -, same⟩
    have label : connection.label = .chars range := (congrArg Arm.label same).symm
    rw [label] at passes
    cases passes
  | cons c rest =>
    exact settles_over_read (fun edge untagged => behind edge c rest untagged rfl) ranges listed
      ordered

end Plan.Leaves

end TaggedRegex
