import Mathlib.Data.List.Sort
import TaggedRegex.Proofs.Automaton.Layout
import TaggedRegex.Proofs.CharRange.Alphabet

set_option autoImplicit false

/-!
What an automaton offers, against the list of what was connected. Rows are sorted by source and
label, and the labels that may read a character lie between two others, so the edges for it can be
cut out of the rows. Whatever calls have led to the automaton, every look-up gives the edges that
were connected, the normal ones first, each kind in the order of connection.
-/

namespace TaggedRegex

namespace Builder

/-- A call of one of the operations of a builder. -/
inductive Call where
  | state
  | connect (source : StateId) (label : Label) (target : StateId) (priority : Priority)
      (tag : Option Tag)
  | setInitial (state : StateId)
  | setAccept (state : StateId)
  | declareGroup (group : Group)
  deriving DecidableEq

/-- The connection that a call makes after `made` others, if it makes one. -/
def Call.connection? (made : Nat) : Call → Option Connection
  | .connect source label target priority tag => some ⟨source, label, target, priority, tag, made⟩
  | .state | .setInitial _ | .setAccept _ | .declareGroup _ => none

/-- The connections that calls make after `made` others. -/
def Call.connections (made : Nat) : List Call → List Connection
  | [] => []
  | call :: rest =>
      match call.connection? made with
      | some connection => connection :: connections (made + 1) rest
      | none => connections made rest

def perform (builder : Builder) : Call → Except Fault Builder
  | .state => builder.state.map Prod.snd
  | .connect source label target priority tag =>
      .ok (builder.connect source label target priority tag)
  | .setInitial state => builder.setInitial state
  | .setAccept state => builder.setAccept state
  | .declareGroup group => builder.declareGroup group

/-- Calls one after the other, up to the first that is refused. -/
def performAll (builder : Builder) : List Call → Except Fault Builder
  | [] => .ok builder
  | call :: rest => do
      let builder ← builder.perform call
      builder.performAll rest

theorem setInitial_eq_ok {before after : Builder} {state : StateId}
    (success : before.setInitial state = .ok after) :
    after = { before with initial := some state } := by
  unfold setInitial at success
  split at success <;> simp_all

theorem setAccept_eq_ok {before after : Builder} {state : StateId}
    (success : before.setAccept state = .ok after) :
    after = { before with accept := some state } := by
  unfold setAccept at success
  split at success <;> simp_all

/-- A call that is not refused makes its connection, and counts it, or changes neither. -/
theorem Made.perform {before after : Builder} {connections : List Connection} {call : Call}
    (made : before.Made connections) (success : before.perform call = .ok after) :
    (∃ connection, call.connection? before.connected = some connection ∧
      after.connected = before.connected + 1 ∧ after.Made (connections ++ [connection])) ∨
    (call.connection? before.connected = none ∧ after.connected = before.connected ∧
      after.Made connections) := by
  cases call with
  | state =>
    obtain ⟨⟨fresh, next⟩, called, rfl⟩ := Fault.of_map_eq_ok success
    exact Or.inr ⟨rfl, by rw [state_eq_ok called], made.state called⟩
  | connect source label target priority tag =>
    obtain rfl := Except.ok.inj success
    exact Or.inl ⟨_, rfl, rfl, made.connect source label target priority tag⟩
  | setInitial state =>
    exact Or.inr ⟨rfl, by rw [setInitial_eq_ok success], made.setInitial state success⟩
  | setAccept state =>
    exact Or.inr ⟨rfl, by rw [setAccept_eq_ok success], made.setAccept state success⟩
  | declareGroup group =>
    exact Or.inr ⟨rfl, by rw [declareGroup_eq_ok success], made.declareGroup group success⟩

theorem Made.performAll {before after : Builder} {connections : List Connection}
    {calls : List Call} (made : before.Made connections)
    (success : before.performAll calls = .ok after) :
    after.Made (connections ++ Call.connections before.connected calls) := by
  induction calls generalizing before connections with
  | nil =>
    obtain rfl := Except.ok.inj success
    simpa [Call.connections] using made
  | cons call rest ih =>
    obtain ⟨next, called, success⟩ := Fault.of_bind_eq_ok success
    rw [Call.connections]
    obtain ⟨connection, makes, counted, nextMade⟩ | ⟨none, counted, nextMade⟩ :=
      made.perform called
    · simpa [makes, counted] using ih nextMade success
    · simpa [none, counted] using ih nextMade success

end Builder

/-! ### The order of the edges -/

instance : Std.Asymm Edge.Before := ⟨fun _ _ before => before.asymm⟩

/-- The edges of connections in the order in which they are tried: the normal ones, then the low
ones, each kind as it was connected. -/
def Connection.tried (connections : List Connection) : List Edge :=
  let edges := connections.map Connection.edge
  edges.filter (fun edge => edge.priority = .normal) ++
    edges.filter fun edge => edge.priority = .low

theorem Connection.mem_tried {connections : List Connection} {edge : Edge} :
    edge ∈ tried connections ↔ ∃ connection ∈ connections, connection.edge = edge := by
  have either : edge.priority = .normal ∨ edge.priority = .low := by
    cases edge.priority <;> simp
  rw [tried, List.mem_append, List.mem_filter, List.mem_filter, ← and_or_left, List.mem_map]
  simp [either]

theorem Connection.sorted_tried {connections : List Connection}
    (ordered : connections.Pairwise fun a b => a.edge.seq < b.edge.seq) :
    (tried connections).Pairwise Edge.Before := by
  have edges : (connections.map Connection.edge).Pairwise fun a b => a.seq < b.seq :=
    List.pairwise_map.2 ordered
  have sorted : ∀ priority : Priority, ((connections.map Connection.edge).filter
      fun edge => edge.priority = priority).Pairwise Edge.Before := by
    intro priority
    apply (edges.sublist List.filter_sublist).imp_of_mem
    intro a b aMember bMember less
    simp only [List.mem_filter, decide_eq_true_eq] at aMember bMember
    exact (Edge.before_iff a b).2 (Or.inr ⟨aMember.2.trans bMember.2.symm, less⟩)
  refine List.pairwise_append.2 ⟨sorted .normal, sorted .low, ?_⟩
  intro a aMember b bMember
  simp only [List.mem_filter, decide_eq_true_eq] at aMember bMember
  exact (Edge.before_iff a b).2 (Or.inl ⟨aMember.2, bMember.2⟩)

/-- Sorted edges are known once it is known which ones they are. -/
theorem Connection.eq_tried {connections : List Connection} {edges : List Edge}
    {asked : Connection → Bool}
    (ordered : connections.Pairwise fun a b => a.edge.seq < b.edge.seq)
    (sorted : edges.Pairwise Edge.Before)
    (members : ∀ edge, edge ∈ edges ↔
      ∃ connection ∈ connections, asked connection = true ∧ connection.edge = edge) :
    edges = tried (connections.filter asked) := by
  apply List.Pairwise.eq_of_mem_iff sorted
    (sorted_tried (ordered.sublist List.filter_sublist))
  intro edge
  rw [members, mem_tried]
  simp [List.mem_filter, and_assoc]

/-! ### Rows between two keys -/

section Cut

variable {α : Type} {test : α → Bool} {values : List α}

/-- Where a test never turns back, the values up to the first that fails are those that pass. -/
theorem takeWhile_eq_filter (once : values.Pairwise fun a b => test b = true → test a = true) :
    values.takeWhile test = values.filter test := by
  induction values with
  | nil => rfl
  | cons first rest ih =>
    obtain ⟨back, once⟩ := List.pairwise_cons.1 once
    by_cases passes : test first = true
    · simp [passes, ih once]
    · have none : ∀ other ∈ rest, ¬ test other = true :=
        fun other member passed => passes (back other member passed)
      simp [passes, List.filter_eq_nil_iff.2 none]

theorem dropWhile_eq_filter (once : values.Pairwise fun a b => test b = true → test a = true) :
    values.dropWhile test = values.filter fun value => !test value := by
  induction values with
  | nil => rfl
  | cons first rest ih =>
    obtain ⟨back, once⟩ := List.pairwise_cons.1 once
    by_cases passes : test first = true
    · simp [passes, ih once]
    · have all : ∀ other ∈ rest, (!test other) = true := by
        intro other member
        have fails : ¬ test other = true := fun passed => passes (back other member passed)
        simpa using fails
      simp [passes, List.filter_eq_self.2 all]

end Cut

namespace Row

instance (a b : Row) : Decidable (a.Before b) :=
  inferInstanceAs (Decidable (_ ∨ _ ∧ _))

/-- The rows from one place in their order to another, both included. Only the sources and the
labels of the bounds count. -/
def between (least greatest : Row) (rows : List Row) : List Row :=
  (rows.dropWhile fun row => row.Before least).takeWhile fun row => ¬ greatest.Before row

theorem between_eq_filter {rows : List Row} (sorted : rows.Pairwise Before)
    (least greatest : Row) :
    between least greatest rows =
      rows.filter fun row => ¬ row.Before least ∧ ¬ greatest.Before row := by
  have below : rows.Pairwise fun a b => decide (b.Before least) = true →
      decide (a.Before least) = true := by
    apply sorted.imp
    intro a b before less
    rw [decide_eq_true_eq] at less ⊢
    exact before.trans less
  have above : (rows.filter fun row => !decide (row.Before least)).Pairwise fun a b =>
      decide (¬ greatest.Before b) = true → decide (¬ greatest.Before a) = true := by
    apply (sorted.sublist List.filter_sublist).imp
    intro a b before notGreater
    rw [decide_eq_true_eq] at notGreater ⊢
    exact fun greater => notGreater (greater.trans before)
  rw [between, dropWhile_eq_filter below, takeWhile_eq_filter above, List.filter_filter]
  simp [and_comm]

/-- No row out of a state comes before this one. -/
def least (state : StateId) : Row := ⟨state, .chars (.single CharRange.all.lo), []⟩

/-- No row out of a state whose label may read `c` comes behind this one. -/
def greatest (state : StateId) (c : Char) : Row :=
  ⟨state, .chars ⟨c, CharRange.all.hi, (CharRange.mem_all c).2⟩, []⟩

theorem within_of_reads {row : Row} {c : Char} (reads : row.label.reads c = true) :
    ¬ row.Before (least row.source) ∧ ¬ (greatest row.source c).Before row := by
  obtain ⟨source, label, edges⟩ := row
  cases label with
  | chars range =>
    obtain ⟨loLe, leHi⟩ : c ∈ range := by simpa [Label.reads] using reads
    constructor
    · rintro (less | ⟨-, below | ⟨same, below⟩⟩)
      · exact Nat.lt_irrefl _ less
      · exact Char.not_lt.2 (CharRange.mem_all range.lo).1 below
      · exact Char.not_lt.2 (CharRange.mem_all range.hi).1 below
    · rintro (less | ⟨-, above | ⟨same, above⟩⟩)
      · exact Nat.lt_irrefl _ less
      · exact Char.not_lt.2 loLe above
      · exact Char.not_lt.2 (CharRange.mem_all range.hi).2 above
  | atEnd => cases reads
  | epsilon => cases reads

theorem source_of_within {state : StateId} {c : Char} {row : Row}
    (notBelow : ¬ row.Before (least state)) (notAbove : ¬ (greatest state c).Before row) :
    row.source = state := by
  apply StateId.eq_of_index_eq
  have atLeast : ¬ row.source.index < state.index := fun less => notBelow (Or.inl less)
  have atMost : ¬ state.index < row.source.index := fun less => notAbove (Or.inl less)
  omega

end Row

namespace Automaton

/-- The edges out of a state that may read `c`, where the rows are cut before they are searched. -/
def onCharCut (automaton : Automaton) (state : StateId) (c : Char) : List Edge :=
  (((Row.between (.least state) (.greatest state c) automaton.rows).filter fun row =>
    row.label.reads c).flatMap Row.edges).mergeSort Edge.notAfter

variable {automaton : Automaton} {connections : List Connection}

/-- Cutting the rows finds what looking through all of them finds. -/
theorem Draws.onCharCut_eq (draws : automaton.Draws connections) (state : StateId) (c : Char) :
    automaton.onCharCut state c = automaton.onChar state c := by
  obtain ⟨made, records⟩ := draws
  unfold onCharCut onChar
  rw [Row.between_eq_filter records.sorted, List.filter_filter]
  congr 2
  apply List.filter_congr
  intro row member
  rw [Bool.eq_iff_iff]
  simp only [Bool.and_eq_true, decide_eq_true_eq]
  constructor
  · rintro ⟨reads, notBelow, notAbove⟩
    exact ⟨Row.source_of_within notBelow notAbove, reads⟩
  · rintro ⟨rfl, reads⟩
    exact ⟨reads, Row.within_of_reads reads⟩

theorem Draws.onChar_eq (draws : automaton.Draws connections) (state : StateId) (c : Char) :
    automaton.onChar state c = Connection.tried (connections.filter fun connection =>
      connection.source = state ∧ connection.label.reads c) := by
  have sorted := draws.sorted_onChar state c
  have members := @Draws.mem_onChar automaton connections draws state c
  obtain ⟨made, records⟩ := draws
  apply Connection.eq_tried records.ordered sorted
  intro edge
  rw [members]
  constructor
  · rintro ⟨range, member, inside⟩
    exact ⟨_, member, by simpa [Label.reads] using inside, rfl⟩
  · rintro ⟨⟨source, label, _⟩, member, asked, rfl⟩
    simp only [decide_eq_true_eq] at asked
    obtain ⟨rfl, reads⟩ := asked
    cases label with
    | chars range => exact ⟨range, member, by simpa [Label.reads] using reads⟩
    | atEnd => cases reads
    | epsilon => cases reads

theorem Draws.edgesAt_eq (draws : automaton.Draws connections) (state : StateId) (label : Label) :
    automaton.edgesAt state label = Connection.tried (connections.filter fun connection =>
      connection.source = state ∧ connection.label = label) := by
  have sorted := draws.sorted_edgesAt state label
  have members := @Draws.mem_edgesAt automaton connections draws state label
  obtain ⟨made, records⟩ := draws
  apply Connection.eq_tried records.ordered sorted
  intro edge
  rw [members]
  constructor
  · intro member
    exact ⟨_, member, by simp, rfl⟩
  · rintro ⟨⟨source, _, _⟩, member, asked, rfl⟩
    simp only [decide_eq_true_eq] at asked
    obtain ⟨rfl, rfl⟩ := asked
    exact member

/-- Whatever calls have led to an automaton, its look-ups give what was connected. The edges for a
character are those with a range that has it in it, whether they are searched for in all rows or cut
out of them; the others are those with the label that is asked for. Normal edges come first, and
edges of one kind come as they were connected. A state is live if it accepts or has an edge that
reads or waits for the end of the input. -/
theorem lookups_of_calls (calls : List Builder.Call) (builder : Builder) (automaton : Automaton)
    (performed : Builder.empty.performAll calls = .ok builder)
    (built : builder.build = .ok automaton) (state : StateId) :
    (∀ c, automaton.onChar state c =
        Connection.tried ((Builder.Call.connections 0 calls).filter fun connection =>
          connection.source = state ∧ connection.label.reads c) ∧
      automaton.onCharCut state c = automaton.onChar state c) ∧
    automaton.onEpsilon state =
      Connection.tried ((Builder.Call.connections 0 calls).filter fun connection =>
        connection.source = state ∧ connection.label = .epsilon) ∧
    automaton.onEnd state =
      Connection.tried ((Builder.Call.connections 0 calls).filter fun connection =>
        connection.source = state ∧ connection.label = .atEnd) ∧
    (automaton.isLive state = true ↔ state = automaton.accept ∨
      ∃ connection ∈ Builder.Call.connections 0 calls,
        connection.source = state ∧ connection.label ≠ .epsilon) := by
  have made : builder.Made (Builder.Call.connections 0 calls) :=
    Builder.Made.empty.performAll performed
  have draws : automaton.Draws (Builder.Call.connections 0 calls) := draws_of_build made built
  exact ⟨fun c => ⟨draws.onChar_eq state c, draws.onCharCut_eq state c⟩,
    draws.edgesAt_eq state .epsilon, draws.edgesAt_eq state .atEnd, draws.isLive_iff state⟩

/-- Two overlapping ranges, the first of them with a low edge that is connected before all normal
ones. -/
def overlappingCalls : List Builder.Call :=
  [.state, .connect ⟨0⟩ (.chars ⟨'b', 'n', by decide⟩) ⟨1⟩ .low none, .state,
    .connect ⟨0⟩ (.chars ⟨'h', 'x', by decide⟩) ⟨1⟩ .normal (some ⟨0, .closing⟩),
    .setInitial ⟨0⟩, .connect ⟨0⟩ .epsilon ⟨1⟩ .normal none,
    .connect ⟨0⟩ (.chars ⟨'b', 'n', by decide⟩) ⟨0⟩ .normal none, .setAccept ⟨1⟩,
    .declareGroup .entireMatch]

theorem lookups_of_calls_overlapping : ∃ builder automaton,
    Builder.empty.performAll overlappingCalls = .ok builder ∧ builder.build = .ok automaton ∧
    automaton.onChar ⟨0⟩ 'k' =
      [⟨⟨1⟩, .normal, some ⟨0, .closing⟩, 1⟩, ⟨⟨0⟩, .normal, none, 3⟩, ⟨⟨1⟩, .low, none, 0⟩] ∧
    automaton.onCharCut ⟨0⟩ 'x' = [⟨⟨1⟩, .normal, some ⟨0, .closing⟩, 1⟩] ∧
    automaton.isLive ⟨0⟩ = true := by
  obtain ⟨builder, performed⟩ : ∃ builder,
      Builder.empty.performAll overlappingCalls = .ok builder := ⟨_, rfl⟩
  obtain ⟨automaton, built⟩ : ∃ automaton, builder.build = .ok automaton := by
    obtain rfl := Except.ok.inj performed
    exact ⟨_, rfl⟩
  obtain ⟨onChar, -, -, live⟩ :=
    lookups_of_calls overlappingCalls builder automaton performed built ⟨0⟩
  refine ⟨builder, automaton, performed, built, ?_, ?_, ?_⟩
  · rw [(onChar 'k').1]
    decide
  · rw [(onChar 'x').2, (onChar 'x').1]
    decide
  · exact live.2 (Or.inr (by decide))

end Automaton

end TaggedRegex
