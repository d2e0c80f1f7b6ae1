import TaggedRegex.Proofs.Automaton.Tagging
import TaggedRegex.Proofs.Trail.Order

set_option autoImplicit false

/-!
The rows of an automaton as a record of its connections. Which edges a state offers, and in which
order, is read off the list of connections in the order in which they were made.
-/

namespace TaggedRegex

theorem StateId.eq_of_index_eq {a b : StateId} (same : a.index = b.index) : a = b := by
  cases a
  cases b
  exact congrArg StateId.mk same

namespace CharRange

theorem lt_iff_ordinal (r s : CharRange) :
    r < s ↔ r.lo.ordinal.val < s.lo.ordinal.val ∨
      r.lo.ordinal.val = s.lo.ordinal.val ∧ r.hi.ordinal.val < s.hi.ordinal.val := by
  rw [lt_def, Char.lt_iff_ordinal_lt, Char.lt_iff_ordinal_lt, ← Char.ordinal_inj, Fin.ext_iff,
    Fin.lt_def, Fin.lt_def]

theorem lt_trans {r s t : CharRange} (first : r < s) (second : s < t) : r < t := by
  rw [lt_iff_ordinal] at *
  omega

theorem lt_irrefl (r : CharRange) : ¬ r < r := by
  rw [lt_iff_ordinal]
  omega

theorem lt_or_eq_or_gt (r s : CharRange) : r < s ∨ r = s ∨ s < r := by
  by_cases same : r.lo = s.lo ∧ r.hi = s.hi
  · obtain ⟨rLo, rHi, rLe⟩ := r
    obtain ⟨sLo, sHi, sLe⟩ := s
    obtain ⟨rfl, rfl⟩ := same
    exact Or.inr (Or.inl rfl)
  · rw [← Char.ordinal_inj, ← Char.ordinal_inj, Fin.ext_iff, Fin.ext_iff] at same
    rw [lt_iff_ordinal, lt_iff_ordinal]
    omega

end CharRange

namespace Label

theorem lt_trans {a b c : Label} (first : a < b) (second : b < c) : a < c := by
  cases a <;> cases b <;> cases c <;>
    first
    | exact trivial
    | exact CharRange.lt_trans first second
    | exact False.elim first
    | exact False.elim second

theorem lt_irrefl (a : Label) : ¬ a < a := by
  cases a with
  | chars range => exact CharRange.lt_irrefl range
  | atEnd => exact id
  | epsilon => exact id

theorem lt_or_eq_or_gt (a b : Label) : a < b ∨ a = b ∨ b < a := by
  cases a with
  | chars r =>
    cases b with
    | chars s =>
      rcases CharRange.lt_or_eq_or_gt r s with less | rfl | greater
      · exact Or.inl less
      · exact Or.inr (Or.inl rfl)
      · exact Or.inr (Or.inr greater)
    | atEnd => exact Or.inl trivial
    | epsilon => exact Or.inl trivial
  | atEnd =>
    cases b with
    | chars s => exact Or.inr (Or.inr trivial)
    | atEnd => exact Or.inr (Or.inl rfl)
    | epsilon => exact Or.inl trivial
  | epsilon =>
    cases b with
    | chars s => exact Or.inr (Or.inr trivial)
    | atEnd => exact Or.inr (Or.inr trivial)
    | epsilon => exact Or.inr (Or.inl rfl)

end Label

namespace Edge

theorem mem_insertInto (edge other : Edge) (edges : List Edge) :
    other ∈ edge.insertInto edges ↔ other = edge ∨ other ∈ edges := by
  unfold insertInto
  cases edge.priority with
  | low => simp [or_comm]
  | normal =>
    dsimp only
    have whole := List.takeWhile_append_dropWhile (p := fun other : Edge =>
      decide (other.priority = .normal)) (l := edges)
    rw [List.mem_append, List.mem_cons, or_left_comm, ← List.mem_append, whole]

/-- A new edge finds its place behind those that are tried before it. -/
theorem sorted_insertInto {edge : Edge} {edges : List Edge} (sorted : edges.Pairwise Before)
    (newest : ∀ other ∈ edges, other.seq < edge.seq) :
    (edge.insertInto edges).Pairwise Before := by
  unfold insertInto
  cases priority : edge.priority with
  | low =>
    rw [List.pairwise_append]
    refine ⟨sorted, List.pairwise_singleton _ _, ?_⟩
    intro other member last lastMember
    rw [List.mem_singleton.1 lastMember, before_iff, priority]
    cases other.priority with
    | normal => exact Or.inl ⟨rfl, rfl⟩
    | low => exact Or.inr ⟨rfl, newest other member⟩
  | normal =>
    have before_of_normal : ∀ other : Edge, other.priority = .normal → other.seq < edge.seq →
        other.Before edge := by
      intro other normal less
      rw [before_iff, normal, priority]
      exact Or.inr ⟨rfl, less⟩
    have unfolded : ∀ others : List Edge,
        (others.takeWhile fun other => other.priority = .normal) ++
            edge :: (others.dropWhile fun other => other.priority = .normal) =
          edge.insertInto others := by
      intro others
      rw [insertInto, priority]
    dsimp only
    induction edges with
    | nil => exact List.pairwise_singleton _ _
    | cons first rest ih =>
      rw [List.pairwise_cons] at sorted
      have restNewest : ∀ other ∈ rest, other.seq < edge.seq :=
        fun other member => newest other (List.mem_cons_of_mem _ member)
      by_cases normal : first.priority = .normal
      · rw [List.takeWhile_cons_of_pos (by simpa using normal),
          List.dropWhile_cons_of_pos (by simpa using normal), List.cons_append,
          List.pairwise_cons]
        refine ⟨?_, ih sorted.2 restNewest⟩
        rw [unfolded]
        intro other member
        rcases (mem_insertInto edge other rest).1 member with rfl | old
        · exact before_of_normal first normal (newest first (List.mem_cons_self ..))
        · exact sorted.1 other old
      · rw [List.takeWhile_cons_of_neg (by simpa using normal),
          List.dropWhile_cons_of_neg (by simpa using normal), List.nil_append,
          List.pairwise_cons, List.pairwise_cons]
        have edgeFirst : edge.Before first := by
          rw [before_iff, priority]
          cases low : first.priority with
          | normal => exact absurd low normal
          | low => exact Or.inl ⟨rfl, rfl⟩
        refine ⟨?_, sorted⟩
        intro other member
        rcases List.mem_cons.1 member with rfl | later
        · exact edgeFirst
        · exact edgeFirst.trans (sorted.1 other later)

theorem notAfter_trans (a b c : Edge) (first : a.notAfter b = true)
    (second : b.notAfter c = true) : a.notAfter c = true := by
  unfold notAfter at *
  cases aPriority : a.priority <;> cases bPriority : b.priority <;>
    cases cPriority : c.priority <;>
    simp only [aPriority, bPriority, cPriority, decide_eq_true_eq, Bool.false_eq_true]
      at first second ⊢ <;>
    omega

theorem notAfter_total (a b : Edge) : (a.notAfter b || b.notAfter a) = true := by
  unfold notAfter
  cases a.priority <;> cases b.priority <;> simp <;> omega

/-- Sorting edges with different places in the order of connection leaves no doubt. -/
theorem sorted_mergeSort {edges : List Edge}
    (distinct : edges.Pairwise fun a b => a.seq ≠ b.seq) :
    (edges.mergeSort notAfter).Pairwise Before := by
  have weakly := List.pairwise_mergeSort notAfter_trans notAfter_total edges
  have apart : (edges.mergeSort notAfter).Pairwise fun a b => a.seq ≠ b.seq :=
    (List.mergeSort_perm edges notAfter).symm.pairwise distinct fun differ => differ.symm
  apply (weakly.and apart).imp
  intro a b both
  rw [before_iff]
  unfold notAfter at both
  cases aPriority : a.priority <;> cases bPriority : b.priority <;>
    simp only [aPriority, bPriority, decide_eq_true_eq, Bool.false_eq_true, false_and] at both <;>
    simp <;>
    omega

end Edge

namespace Row

/-- The order of the rows of an automaton. -/
def Before (a b : Row) : Prop :=
  a.source.index < b.source.index ∨ a.source = b.source ∧ a.label < b.label

theorem Before.trans {a b c : Row} (first : a.Before b) (second : b.Before c) : a.Before c := by
  unfold Before at *
  rcases first with less | ⟨same, less⟩
  · rcases second with more | ⟨again, -⟩
    · exact Or.inl (Nat.lt_trans less more)
    · rw [← again]
      exact Or.inl less
  · rcases second with more | ⟨again, more⟩
    · rw [same]
      exact Or.inl more
    · exact Or.inr ⟨same.trans again, Label.lt_trans less more⟩

theorem Before.irrefl (a : Row) : ¬ a.Before a := by
  rintro (less | ⟨-, less⟩)
  · exact Nat.lt_irrefl _ less
  · exact Label.lt_irrefl _ less

theorem before_of_not {source : StateId} {label : Label} {row : Row}
    (different : ¬ (source = row.source ∧ label = row.label))
    (notLess : ¬ (source.index < row.source.index ∨ source = row.source ∧ label < row.label))
    (edges : List Edge) :
    row.Before ⟨source, label, edges⟩ := by
  rw [not_or] at notLess
  by_cases same : source = row.source
  · right
    refine ⟨same.symm, ?_⟩
    rcases Label.lt_or_eq_or_gt label row.label with less | equal | greater
    · exact absurd ⟨same, less⟩ notLess.2
    · exact absurd ⟨same, equal⟩ different
    · exact greater
  · left
    have unequal : source.index ≠ row.source.index :=
      fun index => same (StateId.eq_of_index_eq index)
    show row.source.index < source.index
    omega

/-- Every row after an insertion stands for an old row or for the inserted edge. -/
theorem key_of_mem_insertEdge {source : StateId} {label : Label} {edge : Edge} {rows : List Row}
    {row : Row} (member : row ∈ insertEdge source label edge rows) :
    (row.source = source ∧ row.label = label) ∨ row ∈ rows := by
  induction rows with
  | nil =>
    rw [List.mem_singleton.1 member]
    exact Or.inl ⟨rfl, rfl⟩
  | cons first rest ih =>
    rw [insertEdge] at member
    split at member
    · rename_i same
      rcases List.mem_cons.1 member with rfl | later
      · exact Or.inl ⟨same.1.symm, same.2.symm⟩
      · exact Or.inr (List.mem_cons_of_mem _ later)
    · split at member
      · rcases List.mem_cons.1 member with rfl | later
        · exact Or.inl ⟨rfl, rfl⟩
        · exact Or.inr later
      · rcases List.mem_cons.1 member with rfl | later
        · exact Or.inr (List.mem_cons_self ..)
        · rcases ih later with key | old
          · exact Or.inl key
          · exact Or.inr (List.mem_cons_of_mem _ old)

theorem Before.of_key {first second other : Row} (before : first.Before second)
    (source : second.source = other.source) (label : second.label = other.label) :
    first.Before other := by
  unfold Before at *
  rw [← source, ← label]
  exact before

theorem sorted_insertEdge {source : StateId} {label : Label} {edge : Edge} {rows : List Row}
    (sorted : rows.Pairwise Before) : (insertEdge source label edge rows).Pairwise Before := by
  induction rows with
  | nil => exact List.pairwise_singleton _ _
  | cons first rest ih =>
    have firstSorted := List.pairwise_cons.1 sorted
    rw [insertEdge]
    split
    · exact List.pairwise_cons.2 ⟨firstSorted.1, firstSorted.2⟩
    · rename_i different
      split
      · rename_i less
        apply List.pairwise_cons.2 ⟨?_, sorted⟩
        intro row member
        rcases List.mem_cons.1 member with rfl | later
        · exact less
        · exact Before.trans less (firstSorted.1 row later)
      · rename_i notLess
        apply List.pairwise_cons.2 ⟨?_, ih firstSorted.2⟩
        intro row member
        rcases key_of_mem_insertEdge member with ⟨rfl, rfl⟩ | old
        · exact before_of_not different notLess row.edges
        · exact firstSorted.1 row old

/-- The edge joins the row of its source and label, in its place, or a new row. -/
theorem exists_of_mem_insertEdge {source : StateId} {label : Label} {edge : Edge}
    {rows : List Row} {row : Row} (member : row ∈ insertEdge source label edge rows) :
    row ∈ rows ∨ row.source = source ∧ row.label = label ∧
      (row.edges = [edge] ∨ ∃ old ∈ rows, old.source = source ∧ old.label = label ∧
        row.edges = edge.insertInto old.edges) := by
  induction rows with
  | nil =>
    rw [List.mem_singleton.1 member]
    exact Or.inr ⟨rfl, rfl, Or.inl rfl⟩
  | cons first rest ih =>
    rw [insertEdge] at member
    split at member
    · rename_i same
      rcases List.mem_cons.1 member with rfl | later
      · right
        exact ⟨same.1.symm, same.2.symm,
          Or.inr ⟨first, List.mem_cons_self .., same.1.symm, same.2.symm, rfl⟩⟩
      · exact Or.inl (List.mem_cons_of_mem _ later)
    · split at member
      · rcases List.mem_cons.1 member with rfl | later
        · exact Or.inr ⟨rfl, rfl, Or.inl rfl⟩
        · exact Or.inl later
      · rcases List.mem_cons.1 member with rfl | later
        · exact Or.inl (List.mem_cons_self ..)
        · rcases ih later with old | ⟨sameSource, sameLabel, single | ⟨old, oldMember, key⟩⟩
          · exact Or.inl (List.mem_cons_of_mem _ old)
          · exact Or.inr ⟨sameSource, sameLabel, Or.inl single⟩
          · exact Or.inr ⟨sameSource, sameLabel,
              Or.inr ⟨old, List.mem_cons_of_mem _ oldMember, key⟩⟩

end Row

/-- An edge with the state that it leaves and with what it asks of the input. -/
structure Connection where
  source : StateId
  label : Label
  edge : Edge
  deriving DecidableEq

/-- The connection stands in some row. -/
def Connection.In (connection : Connection) (rows : List Row) : Prop :=
  ∃ row ∈ rows, row.source = connection.source ∧ row.label = connection.label ∧
    connection.edge ∈ row.edges

theorem Connection.in_cons (connection : Connection) (row : Row) (rows : List Row) :
    connection.In (row :: rows) ↔
      (row.source = connection.source ∧ row.label = connection.label ∧
        connection.edge ∈ row.edges) ∨ connection.In rows := by
  unfold Connection.In
  simp only [List.mem_cons, exists_eq_or_imp]

theorem Connection.in_insertEdge (connection : Connection) (source : StateId) (label : Label)
    (edge : Edge) (rows : List Row) :
    connection.In (Row.insertEdge source label edge rows) ↔
      connection = ⟨source, label, edge⟩ ∨ connection.In rows := by
  have same : connection = ⟨source, label, edge⟩ ↔
      source = connection.source ∧ label = connection.label ∧ connection.edge = edge := by
    obtain ⟨otherSource, otherLabel, otherEdge⟩ := connection
    rw [Connection.mk.injEq, eq_comm, and_congr_right_iff]
    intro _
    rw [eq_comm]
  induction rows with
  | nil =>
    rw [Row.insertEdge, Connection.in_cons, List.mem_singleton, same]
  | cons first rest ih =>
    rw [Row.insertEdge]
    split
    · rename_i key
      rw [Connection.in_cons, Connection.in_cons, Edge.mem_insertInto, same]
      dsimp only
      rw [← key.1, ← key.2]
      tauto
    · split
      · rw [Connection.in_cons, List.mem_singleton, same]
      · rw [Connection.in_cons, Connection.in_cons, or_left_comm]
        exact or_congr_right ih

/-- The rows hold the connections in the order in which they were made; `made` counts them. -/
structure Records (rows : List Row) (made : Nat) (connections : List Connection) : Prop where
  sorted : rows.Pairwise Row.Before
  edgesSorted : ∀ row ∈ rows, row.edges.Pairwise Edge.Before
  inhabited : ∀ row ∈ rows, row.edges ≠ []
  mem : ∀ connection : Connection, connection.In rows ↔ connection ∈ connections
  ordered : connections.Pairwise fun a b => a.edge.seq < b.edge.seq
  made : ∀ connection ∈ connections, connection.edge.seq < made

namespace Records

theorem empty : Records [] 0 [] :=
  ⟨List.Pairwise.nil, fun _ member => absurd member List.not_mem_nil,
    fun _ member => absurd member List.not_mem_nil, fun _ => by simp [Connection.In],
    List.Pairwise.nil, fun _ member => absurd member List.not_mem_nil⟩

/-- One more connection is made. -/
theorem insert {rows : List Row} {made : Nat} {connections : List Connection}
    (records : Records rows made connections) (source : StateId) (label : Label)
    (target : StateId) (priority : Priority) (tag : Option Tag) :
    Records (Row.insertEdge source label ⟨target, priority, tag, made⟩ rows) (made + 1)
      (connections ++ [⟨source, label, ⟨target, priority, tag, made⟩⟩]) := by
  let edge : Edge := ⟨target, priority, tag, made⟩
  have newest : ∀ row ∈ rows, ∀ other ∈ row.edges, other.seq < edge.seq := by
    intro row member other otherMember
    exact records.made ⟨row.source, row.label, other⟩
      ((records.mem _).1 ⟨row, member, rfl, rfl, otherMember⟩)
  refine ⟨Row.sorted_insertEdge records.sorted, ?_, ?_, ?_, ?_, ?_⟩
  · intro row member
    rcases Row.exists_of_mem_insertEdge member with
      old | ⟨-, -, single | ⟨old, oldMember, -, -, joined⟩⟩
    · exact records.edgesSorted row old
    · rw [single]
      exact List.pairwise_singleton _ _
    · rw [joined]
      exact Edge.sorted_insertInto (records.edgesSorted old oldMember) (newest old oldMember)
  · intro row member
    rcases Row.exists_of_mem_insertEdge member with
      old | ⟨-, -, single | ⟨old, oldMember, -, -, joined⟩⟩
    · exact records.inhabited row old
    · rw [single]
      exact List.cons_ne_nil _ _
    · rw [joined]
      exact List.ne_nil_of_mem ((Edge.mem_insertInto _ _ _).2 (Or.inl rfl))
  · intro connection
    rw [Connection.in_insertEdge, records.mem, List.mem_append, List.mem_singleton, or_comm]
  · rw [List.pairwise_append]
    refine ⟨records.ordered, List.pairwise_singleton _ _, ?_⟩
    intro connection member last lastMember
    rw [List.mem_singleton.1 lastMember]
    exact records.made connection member
  · intro connection member
    rcases List.mem_append.1 member with old | new
    · exact Nat.lt_succ_of_lt (records.made connection old)
    · rw [List.mem_singleton.1 new]
      exact Nat.lt_succ_self made

/-- Connections made at the same time are the same. -/
theorem eq_of_seq_eq {rows : List Row} {made : Nat} {connections : List Connection}
    (records : Records rows made connections) {first second : Connection}
    (firstMember : first ∈ connections) (secondMember : second ∈ connections)
    (same : first.edge.seq = second.edge.seq) : first = second := by
  have distinct : (connections.map fun connection => connection.edge.seq).Nodup := by
    rw [List.Nodup, List.pairwise_map]
    exact records.ordered.imp fun less => Nat.ne_of_lt less
  exact List.inj_on_of_nodup_map distinct firstMember secondMember same

end Records

/-- A builder to which calls of its operations have led, and the connections that they have made. -/
inductive Builder.Made : Builder → List Connection → Prop
  | empty : Made .empty []
  | state {builder after : Builder} {connections : List Connection} {fresh : StateId} :
      Made builder connections → builder.state = .ok (fresh, after) → Made after connections
  | connect {builder : Builder} {connections : List Connection} (source : StateId) (label : Label)
      (target : StateId) (priority : Priority) (tag : Option Tag) : Made builder connections →
      Made (builder.connect source label target priority tag)
        (connections ++ [⟨source, label, ⟨target, priority, tag, builder.connected⟩⟩])
  | setInitial {builder after : Builder} {connections : List Connection} (state : StateId) :
      Made builder connections → builder.setInitial state = .ok after → Made after connections
  | setAccept {builder after : Builder} {connections : List Connection} (state : StateId) :
      Made builder connections → builder.setAccept state = .ok after → Made after connections
  | declareGroup {builder after : Builder} {connections : List Connection} (group : Group) :
      Made builder connections → builder.declareGroup group = .ok after → Made after connections

/-- The rows of a builder record the connections, whatever calls came in between. -/
theorem Builder.Made.records {builder : Builder} {connections : List Connection}
    (made : builder.Made connections) :
    Records builder.rows builder.connected connections := by
  induction made with
  | empty => exact .empty
  | @state builder after connections fresh _ called ih =>
    unfold Builder.state at called
    cases handedOut : builder.states.freshState with
    | error fault =>
      rw [handedOut] at called
      cases called
    | ok next =>
      rw [handedOut] at called
      obtain ⟨-, rfl⟩ := Prod.mk.inj (Except.ok.inj called)
      exact ih
  | connect source label target priority tag _ ih =>
    exact ih.insert source label target priority tag
  | setInitial state _ called ih =>
    unfold Builder.setInitial at called
    split at called
    · rw [← Except.ok.inj called]
      exact ih
    · cases called
  | setAccept state _ called ih =>
    unfold Builder.setAccept at called
    split at called
    · rw [← Except.ok.inj called]
      exact ih
    · cases called
  | declareGroup group _ called ih =>
    unfold Builder.declareGroup at called
    split at called
    · cases called
    · rw [← Except.ok.inj called]
      exact ih

end TaggedRegex
