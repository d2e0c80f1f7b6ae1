import Mathlib.Data.List.Flatten
import TaggedRegex.Proofs.Automaton.Connections
import TaggedRegex.Proofs.Trail.Run

set_option autoImplicit false

/-!
What an automaton offers, read off its connections. If every state either reads, or waits for the
end, or branches with at most one normal edge, the automaton is orderly.
-/

namespace TaggedRegex

namespace Automaton

/-- The rows of the automaton hold these connections, in the order in which they were made. -/
def Draws (automaton : Automaton) (connections : List Connection) : Prop :=
  ∃ made, Records automaton.rows made connections

variable {automaton : Automaton} {connections : List Connection}

theorem draws_of_build {builder : Builder} (made : builder.Made connections)
    (built : builder.build = .ok automaton) : automaton.Draws connections := by
  refine ⟨builder.connected, ?_⟩
  rw [(Builder.build_eq_ok built).2.2.1]
  exact made.records

theorem Draws.key_unique (draws : automaton.Draws connections) {first second : Row}
    (firstMember : first ∈ automaton.rows) (secondMember : second ∈ automaton.rows)
    (source : first.source = second.source) (label : first.label = second.label) :
    first = second := by
  rcases draws with ⟨made, records⟩
  by_contra different
  rcases List.pairwise_iff_getElem.1 records.sorted with sorted
  rcases List.mem_iff_getElem.1 firstMember with ⟨i, iInside, rfl⟩
  rcases List.mem_iff_getElem.1 secondMember with ⟨j, jInside, rfl⟩
  rcases Nat.lt_trichotomy i j with less | rfl | greater
  · exact Row.Before.irrefl _ ((sorted i j iInside jInside less).of_key source.symm label.symm)
  · exact different rfl
  · exact Row.Before.irrefl _ ((sorted j i jInside iInside greater).of_key source label)

theorem Draws.mem_edgesAt (draws : automaton.Draws connections) {state : StateId} {label : Label}
    {edge : Edge} :
    edge ∈ automaton.edgesAt state label ↔ ⟨state, label, edge⟩ ∈ connections := by
  rcases draws with ⟨made, records⟩
  rw [← records.mem, edgesAt]
  split
  · rename_i row found
    have fits := List.find?_some found
    rw [decide_eq_true_eq] at fits
    constructor
    · intro member
      exact ⟨row, List.mem_of_find?_eq_some found, fits.1, fits.2, member⟩
    · rintro ⟨other, otherMember, source, label, member⟩
      have same := Draws.key_unique ⟨made, records⟩ (List.mem_of_find?_eq_some found) otherMember
        (fits.1.trans source.symm) (fits.2.trans label.symm)
      rw [same]
      exact member
  · rename_i missing
    constructor
    · intro member
      cases member
    · rintro ⟨row, rowMember, source, label, -⟩
      have absent := List.find?_eq_none.1 missing row rowMember
      exact absurd (decide_eq_true ⟨source, label⟩) absent

theorem Draws.sorted_edgesAt (draws : automaton.Draws connections) (state : StateId)
    (label : Label) : (automaton.edgesAt state label).Pairwise Edge.Before := by
  rcases draws with ⟨made, records⟩
  rw [edgesAt]
  split
  · rename_i row found
    exact records.edgesSorted row (List.mem_of_find?_eq_some found)
  · exact List.Pairwise.nil

theorem Draws.mem_onChar (draws : automaton.Draws connections) {state : StateId} {c : Char}
    {edge : Edge} :
    edge ∈ automaton.onChar state c ↔
      ∃ range, ⟨state, .chars range, edge⟩ ∈ connections ∧ c ∈ range := by
  rcases draws with ⟨made, records⟩
  rw [onChar, List.mem_mergeSort, List.mem_flatMap]
  constructor
  · rintro ⟨row, rowMember, member⟩
    rw [List.mem_filter, decide_eq_true_eq] at rowMember
    rcases rowMember with ⟨inRows, source, reads⟩
    cases label : row.label with
    | chars range =>
      rw [label] at reads
      refine ⟨range, ?_, of_decide_eq_true reads⟩
      rw [← records.mem]
      exact ⟨row, inRows, source, label, member⟩
    | atEnd =>
      rw [label] at reads
      cases reads
    | epsilon =>
      rw [label] at reads
      cases reads
  · rintro ⟨range, made, inside⟩
    rcases (records.mem _).2 made with ⟨row, inRows, source, label, member⟩
    refine ⟨row, ?_, member⟩
    rw [List.mem_filter, decide_eq_true_eq, label]
    exact ⟨inRows, source, decide_eq_true inside⟩

/-- No two edges in the rows were connected at the same time. -/
theorem Draws.distinct_edges (draws : automaton.Draws connections) :
    (automaton.rows.flatMap Row.edges).Pairwise fun a b => a.seq ≠ b.seq := by
  rcases draws with ⟨made, records⟩
  rw [List.pairwise_flatMap]
  have listed : ∀ row ∈ automaton.rows, ∀ edge ∈ row.edges,
      (⟨row.source, row.label, edge⟩ : Connection) ∈ connections := by
    intro row rowMember edge member
    rw [← records.mem]
    exact ⟨row, rowMember, rfl, rfl, member⟩
  constructor
  · intro row rowMember
    apply (records.edgesSorted row rowMember).imp_of_mem
    intro a b aMember bMember before same
    have equal := records.eq_of_seq_eq (listed row rowMember a aMember)
      (listed row rowMember b bMember) same
    obtain rfl : a = b := congrArg Connection.edge equal
    exact before.asymm before
  · apply records.sorted.imp_of_mem
    intro first second firstMember secondMember before a aMember b bMember same
    have equal := records.eq_of_seq_eq (listed first firstMember a aMember)
      (listed second secondMember b bMember) same
    exact Row.Before.irrefl _ (before.of_key (congrArg Connection.source equal).symm
      (congrArg Connection.label equal).symm)

theorem Draws.sorted_onChar (draws : automaton.Draws connections) (state : StateId) (c : Char) :
    (automaton.onChar state c).Pairwise Edge.Before := by
  apply Edge.sorted_mergeSort
  exact List.Pairwise.sublist (List.filter_sublist.flatMap _) draws.distinct_edges

theorem Draws.sorted_freeEdges (draws : automaton.Draws connections) (step : Step)
    (state : StateId) : (Closure.freeEdges automaton step state).Pairwise Edge.Before := by
  cases step with
  | start => exact draws.sorted_edgesAt state .epsilon
  | char c => exact draws.sorted_edgesAt state .epsilon
  | finish =>
    apply Edge.sorted_mergeSort
    have apart : ∀ label, (automaton.edgesAt state label).Pairwise fun a b => a.seq ≠ b.seq := by
      intro label
      apply (draws.sorted_edgesAt state label).imp_of_mem
      intro a b aMember bMember before same
      have aListed := draws.mem_edgesAt.1 aMember
      have bListed := draws.mem_edgesAt.1 bMember
      rcases draws with ⟨made, records⟩
      have equal := records.eq_of_seq_eq aListed bListed same
      obtain rfl : a = b := congrArg Connection.edge equal
      exact before.asymm before
    rw [List.pairwise_append]
    refine ⟨apart .epsilon, apart .atEnd, ?_⟩
    intro a aMember b bMember same
    have aListed := draws.mem_edgesAt.1 aMember
    have bListed := draws.mem_edgesAt.1 bMember
    rcases draws with ⟨made, records⟩
    have equal := congrArg Connection.label (records.eq_of_seq_eq aListed bListed same)
    cases equal

/-- A state is live if it accepts or has an edge with a label other than epsilon. -/
theorem Draws.isLive_iff (draws : automaton.Draws connections) (state : StateId) :
    automaton.isLive state = true ↔ state = automaton.accept ∨
      ∃ connection ∈ connections, connection.source = state ∧ connection.label ≠ .epsilon := by
  rcases draws with ⟨made, records⟩
  rw [isLive, Bool.or_eq_true, decide_eq_true_eq, List.any_eq_true]
  apply or_congr_right
  constructor
  · rintro ⟨row, rowMember, fits⟩
    rw [decide_eq_true_eq] at fits
    rcases List.exists_mem_of_ne_nil _ (records.inhabited row rowMember) with ⟨edge, member⟩
    refine ⟨⟨row.source, row.label, edge⟩, ?_, fits⟩
    rw [← records.mem]
    exact ⟨row, rowMember, rfl, rfl, member⟩
  · rintro ⟨connection, member, source, label⟩
    rcases (records.mem connection).2 member with ⟨row, rowMember, rowSource, rowLabel, -⟩
    refine ⟨row, rowMember, decide_eq_true ⟨rowSource.trans source, ?_⟩⟩
    rw [rowLabel]
    exact label

end Automaton

/-- The connections out of a state, in the order in which they were made. -/
def exitsOf (connections : List Connection) (state : StateId) : List Connection :=
  connections.filter fun connection => connection.source = state

theorem mem_exitsOf {connections : List Connection} {state : StateId} {connection : Connection} :
    connection ∈ exitsOf connections state ↔
      connection ∈ connections ∧ connection.source = state := by
  rw [exitsOf, List.mem_filter, decide_eq_true_eq]

@[simp] theorem exitsOf_append (first second : List Connection) (state : StateId) :
    exitsOf (first ++ second) state = exitsOf first state ++ exitsOf second state :=
  List.filter_append ..

theorem Automaton.Draws.ordered {automaton : Automaton} {connections : List Connection}
    (draws : automaton.Draws connections) (state : StateId) :
    (exitsOf connections state).Pairwise fun a b => a.edge.seq < b.edge.seq := by
  rcases draws with ⟨made, records⟩
  exact records.ordered.sublist List.filter_sublist

/-- An edge without its place in the order of connection. -/
structure Arm where
  label : Label
  target : StateId
  priority : Priority
  tag : Option Tag
  deriving DecidableEq

def Connection.arm (connection : Connection) : Arm :=
  ⟨connection.label, connection.edge.target, connection.edge.priority, connection.edge.tag⟩

/-- The arms of a state, in the order in which they were connected. -/
def armsOf (connections : List Connection) (state : StateId) : List Arm :=
  (exitsOf connections state).map Connection.arm

@[simp] theorem armsOf_append (first second : List Connection) (state : StateId) :
    armsOf (first ++ second) state = armsOf first state ++ armsOf second state := by
  rw [armsOf, exitsOf_append, List.map_append]
  rfl

theorem armsOf_eq_nil {connections : List Connection} {state : StateId}
    (elsewhere : ∀ connection ∈ connections, connection.source ≠ state) :
    armsOf connections state = [] := by
  have none : exitsOf connections state = [] := by
    rw [exitsOf, List.filter_eq_nil_iff]
    intro connection member
    simpa using elsewhere connection member
  rw [armsOf, none]
  rfl

/-- What a state of a laid out expression is for: it reads a character, or it waits for the end of
the input, or it branches, with at most one normal arm. -/
inductive Shape (arms : List Arm) : Prop
  | reading (target : StateId) :
      (∀ arm ∈ arms, (∃ range, arm.label = .chars range) ∧ arm.target = target) → Shape arms
  | ending (arm : Arm) : arms = [arm] → arm.label = .atEnd → Shape arms
  | branching : (∀ arm ∈ arms, arm.label = .epsilon) →
      (arms.filter fun arm => arm.priority = .normal).length ≤ 1 → Shape arms

theorem Shape.nil : Shape [] :=
  .branching (fun _ member => absurd member List.not_mem_nil) (Nat.zero_le 1)

/-- Of a state with a shape no two connections without a range are normal. -/
theorem Shape.unique {exits : List Connection} (shape : Shape (exits.map Connection.arm))
    {first second : Connection} (firstMember : first ∈ exits) (secondMember : second ∈ exits)
    (waits : ∀ range, first.label ≠ .chars range) (firstNormal : first.edge.priority = .normal)
    (secondNormal : second.edge.priority = .normal) : first = second := by
  have atMostOne : ∀ {others : List Connection}, others.length ≤ 1 → first ∈ others →
      second ∈ others → first = second := by
    intro others few firstInside secondInside
    cases others with
    | nil => cases firstInside
    | cons only rest =>
      obtain rfl : rest = [] := by simpa using few
      rw [List.mem_singleton.1 firstInside, List.mem_singleton.1 secondInside]
  cases shape with
  | reading target reads =>
    rcases (reads _ (List.mem_map_of_mem firstMember)).1 with ⟨range, label⟩
    exact absurd label (waits range)
  | ending arm only _ =>
    apply atMostOne ?_ firstMember secondMember
    have length := congrArg List.length only
    rw [List.length_map] at length
    exact Nat.le_of_eq length
  | branching _ few =>
    rw [List.filter_map, List.length_map] at few
    apply atMostOne few
    · exact List.mem_filter.2 ⟨firstMember, decide_eq_true firstNormal⟩
    · exact List.mem_filter.2 ⟨secondMember, decide_eq_true secondNormal⟩

theorem Survey.narrow_of_unique {edges : List Edge} (sorted : edges.Pairwise Edge.Before)
    (unique : ∀ first ∈ edges, ∀ second ∈ edges, first.priority = .normal →
      second.priority = .normal → first = second) : Narrow edges := by
  refine ⟨?_, sorted⟩
  have filtered : (edges.filter fun edge => edge.priority = .normal).Pairwise Edge.Before :=
    sorted.sublist List.filter_sublist
  have same : ∀ first ∈ edges.filter fun edge => edge.priority = .normal,
      ∀ second ∈ edges.filter fun edge => edge.priority = .normal, first = second := by
    intro first firstMember second secondMember
    rw [List.mem_filter, decide_eq_true_eq] at firstMember secondMember
    exact unique first firstMember.1 second secondMember.1 firstMember.2 secondMember.2
  cases listed : edges.filter fun edge => edge.priority = .normal with
  | nil => exact Nat.zero_le 1
  | cons first rest =>
    cases rest with
    | nil => exact Nat.le_refl 1
    | cons second others =>
      rw [listed] at filtered same
      have before := (List.pairwise_cons.1 filtered).1 second (List.mem_cons_self ..)
      rw [same first (by simp) second (by simp)] at before
      exact absurd before before.asymm

namespace Automaton

/-- An automaton all of whose states have a shape is orderly. -/
theorem orderly_of_shape {automaton : Automaton} {connections : List Connection}
    (draws : automaton.Draws connections) (shape : ∀ state, Shape (armsOf connections state))
    (stops : armsOf connections automaton.accept = []) : automaton.Orderly := by
  have listed : ∀ {state label edge}, edge ∈ automaton.edgesAt state label →
      (⟨state, label, edge⟩ : Connection) ∈ exitsOf connections state :=
    fun member => mem_exitsOf.2 ⟨draws.mem_edgesAt.1 member, rfl⟩
  have unique : ∀ {state firstLabel secondLabel first second},
      first ∈ automaton.edgesAt state firstLabel → second ∈ automaton.edgesAt state secondLabel →
      (∀ range, firstLabel ≠ .chars range) → first.priority = .normal →
      second.priority = .normal → first = second := by
    intro state firstLabel secondLabel first second firstMember secondMember waits
      firstNormal secondNormal
    have same := (shape state).unique (listed firstMember) (listed secondMember) waits firstNormal
      secondNormal
    exact congrArg Connection.edge same
  have narrowAt : ∀ state label, (∀ range, label ≠ .chars range) →
      Survey.Narrow (automaton.edgesAt state label) := by
    intro state label waits
    apply Survey.narrow_of_unique (draws.sorted_edgesAt state label)
    intro first firstMember second secondMember firstNormal secondNormal
    exact unique firstMember secondMember waits firstNormal secondNormal
  have noRangeEpsilon : ∀ range, Label.epsilon ≠ .chars range := fun range same => by cases same
  have noRangeEnd : ∀ range, Label.atEnd ≠ .chars range := fun range same => by cases same
  have armOf : ∀ {state label edge}, (⟨state, label, edge⟩ : Connection) ∈ connections →
      (⟨label, edge.target, edge.priority, edge.tag⟩ : Arm) ∈ armsOf connections state :=
    fun member => List.mem_map.2 ⟨_, mem_exitsOf.2 ⟨member, rfl⟩, rfl⟩
  have noExit : ∀ label, automaton.edgesAt automaton.accept label = [] := by
    intro label
    rw [List.eq_nil_iff_forall_not_mem]
    intro edge member
    have arm := armOf (draws.mem_edgesAt.1 member)
    rw [stops] at arm
    cases arm
  refine ⟨?_, fun state => narrowAt state .atEnd noRangeEnd, draws.sorted_onChar, ?_, ?_,
    noExit .atEnd⟩
  · intro step state
    cases step with
    | start => exact narrowAt state .epsilon noRangeEpsilon
    | char c => exact narrowAt state .epsilon noRangeEpsilon
    | finish =>
      apply Survey.narrow_of_unique (draws.sorted_freeEdges .finish state)
      intro first firstMember second secondMember
      rw [Closure.freeEdges, List.mem_mergeSort, List.mem_append] at firstMember secondMember
      rcases firstMember with epsilon | atEnd
      · exact secondMember.elim (unique epsilon · noRangeEpsilon) (unique epsilon · noRangeEpsilon)
      · exact secondMember.elim (unique atEnd · noRangeEnd) (unique atEnd · noRangeEnd)
  · intro state c
    have read : ∀ edge ∈ automaton.onChar state c, ∃ range,
        (⟨.chars range, edge.target, edge.priority, edge.tag⟩ : Arm) ∈
          armsOf connections state := by
      intro edge member
      rcases draws.mem_onChar.1 member with ⟨range, made, -⟩
      exact ⟨range, armOf made⟩
    cases shape state with
    | reading target reads =>
      refine ⟨target, fun edge member => ?_⟩
      rcases read edge member with ⟨range, arm⟩
      exact (reads _ arm).2
    | ending only single atEnd =>
      refine ⟨state, fun edge member => ?_⟩
      rcases read edge member with ⟨range, arm⟩
      rw [single, List.mem_singleton] at arm
      rw [← arm] at atEnd
      cases atEnd
    | branching epsilon _ =>
      refine ⟨state, fun edge member => ?_⟩
      rcases read edge member with ⟨range, arm⟩
      cases epsilon _ arm
  · intro state live
    rw [List.eq_nil_iff_forall_not_mem]
    intro edge member
    have arm := armOf (draws.mem_edgesAt.1 member)
    rcases (draws.isLive_iff state).1 live with rfl | ⟨other, otherMember, rfl, label⟩
    · rw [stops] at arm
      cases arm
    · cases shape other.source with
      | reading target reads =>
        rcases (reads _ arm).1 with ⟨range, same⟩
        cases same
      | ending only single atEnd =>
        rw [single, List.mem_singleton] at arm
        rw [← arm] at atEnd
        cases atEnd
      | branching epsilon _ => exact label (epsilon _ (armOf otherMember))

end Automaton

end TaggedRegex
