import TaggedRegex.Proofs.Automaton.Labelling

set_option autoImplicit false

/-!
What leaves the states of the automaton of an expression. Neighbouring parts of an expression share
a state, but no part adds an edge to a state from which another part leads on, so that every state
keeps to one purpose.
-/

namespace TaggedRegex

/-- Both labels ask for a character, or both for the end of the input, or both for nothing. -/
def Label.Alike : Label → Label → Prop
  | .chars _, .chars _ => True
  | .atEnd, .atEnd => True
  | .epsilon, .epsilon => True
  | _, _ => False

theorem Label.alike_of_reads {first second : Label} (reads : ∃ range, first = .chars range)
    (readsToo : ∃ range, second = .chars range) : first.Alike second := by
  obtain ⟨range, rfl⟩ := reads
  obtain ⟨other, rfl⟩ := readsToo
  exact trivial

namespace Automaton

/-- The edges out of a state. -/
def exits (automaton : Automaton) (state : StateId) : List Connection :=
  exitsOf (Row.connections automaton.rows) state

/-- Every state has edges of one kind: edges that read characters on the way to one target, or one
edge at the end of the input, or epsilon edges, of which one is tried before all others. An edge
with a tag is the only one out of its state, and none leads out of the accepting state. -/
structure Regular (automaton : Automaton) : Prop where
  alike : ∀ state, ∀ first ∈ automaton.exits state, ∀ second ∈ automaton.exits state,
    first.label.Alike second.label
  normal : ∀ state, ((automaton.exits state).filter fun connection =>
    connection.label.range? = none ∧ connection.edge.priority = .normal).length ≤ 1
  reading : ∀ state, ∃ target, ∀ connection ∈ automaton.exits state, ∀ range,
    connection.label = .chars range → connection.edge.target = target ∧
      connection.edge.priority = .normal ∧ connection.edge.tag = none
  stops : automaton.exits automaton.accept = []
  tagged : ∀ state, ∀ connection ∈ automaton.exits state, connection.edge.tag ≠ none →
    automaton.exits state = [connection]

end Automaton

/-! ### All edges out of a state -/

theorem Connection.in_iff {connection : Connection} {rows : List Row} :
    connection.In rows ↔ connection ∈ Row.connections rows := by
  simp only [Connection.In, Row.connections, List.mem_flatMap, List.mem_map]
  constructor
  · rintro ⟨row, listed, source, label, member⟩
    refine ⟨row, listed, connection.edge, member, ?_⟩
    rw [source, label]
  · rintro ⟨row, listed, edge, member, rfl⟩
    exact ⟨row, listed, rfl, rfl, member⟩

theorem Row.map_edge_connections (rows : List Row) :
    (connections rows).map Connection.edge = rows.flatMap Row.edges := by
  rw [connections, List.map_flatMap]
  congr 1
  funext row
  rw [List.map_map]
  exact List.map_id _

namespace Automaton

variable {automaton : Automaton} {connections : List Connection}

/-- The rows hold the connections, each of them once. -/
theorem Draws.perm (draws : automaton.Draws connections) :
    (Row.connections automaton.rows).Perm connections := by
  have apart := draws.distinct_edges
  rw [← Row.map_edge_connections, List.pairwise_map] at apart
  obtain ⟨made, records⟩ := draws
  have distinct : ∀ {first second : Connection}, first.edge.seq ≠ second.edge.seq →
      first ≠ second := by
    rintro first second differ rfl
    exact differ rfl
  apply (List.perm_ext_iff_of_nodup _ _).2
  · intro connection
    rw [← Connection.in_iff, records.mem]
  · exact apart.imp distinct
  · exact records.ordered.imp fun less => distinct (Nat.ne_of_lt less)

theorem Draws.perm_exits (draws : automaton.Draws connections) (state : StateId) :
    ((automaton.exits state).map Connection.arm).Perm (armsOf connections state) :=
  (draws.perm.filter _).map _

end Automaton

/-- The shape of a state does not depend on the order of its edges. -/
theorem Shape.perm {arms others : List Arm} (shape : Shape arms) (perm : others.Perm arms) :
    Shape others := by
  cases shape with
  | reading target reads => exact .reading target fun arm member => reads arm (perm.subset member)
  | ending arm only label =>
    rw [only, List.perm_singleton] at perm
    exact .ending arm perm label
  | branching labels few =>
    refine .branching (fun arm member => labels arm (perm.subset member)) ?_
    rwa [(perm.filter _).length_eq]

namespace Shape

variable {exits : List Connection}

theorem alike (shape : Shape (exits.map Connection.arm)) {first second : Connection}
    (here : first ∈ exits) (there : second ∈ exits) : first.label.Alike second.label := by
  have firstArm := List.mem_map_of_mem (f := Connection.arm) here
  have secondArm := List.mem_map_of_mem (f := Connection.arm) there
  cases shape with
  | reading target reads => exact Label.alike_of_reads (reads _ firstArm).1 (reads _ secondArm).1
  | ending arm only label =>
    rw [only, List.mem_singleton] at firstArm secondArm
    have firstLabel : first.label = .atEnd := (congrArg Arm.label firstArm).trans label
    have secondLabel : second.label = .atEnd := (congrArg Arm.label secondArm).trans label
    rw [firstLabel, secondLabel]
    trivial
  | branching labels _ =>
    have firstLabel : first.label = .epsilon := labels _ firstArm
    have secondLabel : second.label = .epsilon := labels _ secondArm
    rw [firstLabel, secondLabel]
    trivial

theorem normal (shape : Shape (exits.map Connection.arm)) :
    (exits.filter fun connection =>
      connection.label.range? = none ∧ connection.edge.priority = .normal).length ≤ 1 := by
  cases shape with
  | reading target reads =>
    have none : exits.filter (fun connection => connection.label.range? = none ∧
        connection.edge.priority = .normal) = [] := by
      rw [List.filter_eq_nil_iff]
      intro connection member
      obtain ⟨range, label⟩ := (reads _ (List.mem_map_of_mem member)).1
      have here : connection.label = .chars range := label
      simp [here, Label.range?]
    rw [none]
    exact Nat.zero_le 1
  | ending arm only _ =>
    have length := congrArg List.length only
    rw [List.length_map] at length
    exact Nat.le_trans (List.length_filter_le _ _) (Nat.le_of_eq length)
  | branching _ few =>
    rw [List.filter_map, List.length_map] at few
    refine Nat.le_trans (List.Sublist.length_le ?_) few
    apply List.monotone_filter_right
    intro connection both
    rw [decide_eq_true_eq] at both
    exact decide_eq_true both.2

theorem reading_target (shape : Shape (exits.map Connection.arm)) :
    ∃ target, ∀ connection ∈ exits, ∀ range, connection.label = .chars range →
      connection.edge.target = target := by
  cases shape with
  | reading target reads =>
    exact ⟨target, fun connection member _ _ => (reads _ (List.mem_map_of_mem member)).2⟩
  | ending arm only atEnd =>
    refine ⟨⟨0⟩, fun connection member range label => ?_⟩
    have here := List.mem_map_of_mem (f := Connection.arm) member
    rw [only, List.mem_singleton] at here
    rw [← here] at atEnd
    cases label.symm.trans atEnd
  | branching labels _ =>
    refine ⟨⟨0⟩, fun connection member range label => ?_⟩
    cases label.symm.trans (labels _ (List.mem_map_of_mem member))

end Shape

/-! ### Low edges and edges with tags -/

namespace Builder

/-- A low edge asks nothing of the input. -/
def LowFree (builder : Builder) : Prop :=
  ∀ connection ∈ Row.connections builder.rows, connection.edge.priority = .low →
    connection.label = .epsilon

theorem LowFree.connect {builder : Builder} (free : builder.LowFree) (source : StateId)
    (label : Label) (target : StateId) (priority : Priority) (tag : Option Tag)
    (low : priority = .low → label = .epsilon) :
    (builder.connect source label target priority tag).LowFree := by
  intro connection member
  obtain rfl | old := List.mem_cons.1 ((Row.perm_connections_insertEdge ..).mem_iff.1 member)
  · exact low
  · exact free connection old

theorem carried_lowFree : Carried fun before after => before.LowFree → after.LowFree where
  refl _ := id
  trans first second free := second (first free)
  state success free := by
    rw [state_eq_ok success]
    exact free
  connect _ source label target priority low free :=
    free.connect source label target priority none low
  group {before declared stocked inner group head first last tail} declares fresh body free := by
    obtain rfl := declareGroup_eq_ok declares
    obtain rfl := twoStates_eq_ok fresh
    have within := body (free.connect head .epsilon first .normal _ fun _ => rfl)
    exact within.connect last .epsilon tail .normal _ fun _ => rfl

end Builder

namespace Automaton

variable {regex : Regex} {anchor : Anchor} {automaton : Automaton}

theorem epsilon_of_low (built : regex.automaton anchor = .ok automaton) {connection : Connection}
    (member : connection ∈ Row.connections automaton.rows)
    (low : connection.edge.priority = .low) : connection.label = .epsilon := by
  obtain ⟨after, finished, start, inner, head, first, last, tail, early, body, late⟩ :=
    Builder.carried_lowFree.automaton built
  obtain ⟨-, -, rows, -⟩ := Builder.build_eq_ok finished
  have begun : start.LowFree := early fun _ member => absurd member List.not_mem_nil
  have within := body (begun.connect head .epsilon first .normal _ fun _ => rfl)
  have whole := late (within.connect last .epsilon tail .normal _ fun _ => rfl)
  rw [rows] at member
  exact whole connection member low

theorem epsilon_of_tag (built : regex.automaton anchor = .ok automaton) {connection : Connection}
    (member : connection ∈ Row.connections automaton.rows) {tag : Tag}
    (carries : connection.edge.tag = some tag) : connection.label = .epsilon := by
  have mark : (connection.label, tag) ∈
      (Row.connections automaton.rows).filterMap Connection.mark? := by
    refine List.mem_filterMap.2 ⟨connection, member, ?_⟩
    rw [Connection.mark?, carries]
    rfl
  have listed := (perm_marks built).subset mark
  rw [marks_eq_tags] at listed
  obtain ⟨other, -, same⟩ := List.mem_map.1 listed
  exact (Prod.mk.inj same).1.symm

end Automaton

namespace Plan

variable {plan : Plan} {tag : Tag}

mutual

/-- Every tag of the groups of an expression has a state of its own. -/
theorem Lays.exists_crossing : (regex : Regex) → {number : Nat} → {head tail : StateId} →
    plan.Lays number head tail regex → number ≤ tag.group →
    tag.group < number + regex.groupCount → ∃ state target, plan.Leaves state [.cross target tag]
  | .any, number, _, _, _, le, lt => absurd lt (Nat.not_lt.2 le)
  | .lit _, number, _, _, _, le, lt => absurd lt (Nat.not_lt.2 le)
  | .set _, number, _, _, _, le, lt => absurd lt (Nat.not_lt.2 le)
  | .atEnd, number, _, _, _, le, lt => absurd lt (Nat.not_lt.2 le)
  | .group body, number, _, _, ⟨first, last, opens, inside, closes⟩, le, lt => by
    by_cases own : tag.group = number
    · obtain ⟨group, boundary⟩ := tag
      obtain rfl : group = number := own
      cases boundary with
      | opening => exact ⟨_, _, opens⟩
      | closing => exact ⟨_, _, closes⟩
    · rw [Regex.groupCount] at lt
      exact Lays.exists_crossing body inside (by omega) (by omega)
  | .rep _ _ body, _, _, _, ⟨_, _, _, inside, _⟩, le, lt => Lays.exists_crossing body inside le lt
  | .alt branches, _, _, _, ⟨_, _, inside⟩, le, lt =>
    LaysBranches.exists_crossing branches inside le lt
  | .cat items, _, _, _, inside, le, lt => LaysItems.exists_crossing items inside le lt

theorem LaysBranches.exists_crossing : (branches : List Regex) → {number : Nat} →
    {tail : StateId} → {priority : Priority} → {arms : List Arm} →
    plan.LaysBranches number tail priority arms branches → number ≤ tag.group →
    tag.group < number + Regex.groupCounts branches →
    ∃ state target, plan.Leaves state [.cross target tag]
  | [], _, _, _, _, _, le, lt => absurd lt (Nat.not_lt.2 le)
  | branch :: rest, number, _, _, _, ⟨_, _, _, _, inside, _, others⟩, le, lt => by
    rw [Regex.groupCounts] at lt
    by_cases early : tag.group < number + branch.groupCount
    · exact Lays.exists_crossing branch inside le early
    · exact LaysBranches.exists_crossing rest others (by omega) (by omega)

theorem LaysItems.exists_crossing : (items : List Regex) → {number : Nat} →
    {head tail : StateId} → plan.LaysItems number head tail items → number ≤ tag.group →
    tag.group < number + Regex.groupCounts items →
    ∃ state target, plan.Leaves state [.cross target tag]
  | [], _, _, _, _, le, lt => absurd lt (Nat.not_lt.2 le)
  | [last], _, _, _, inside, le, lt => Lays.exists_crossing last inside le lt
  | item :: next :: rest, number, _, _, ⟨_, inside, others⟩, le, lt => by
    rw [Regex.groupCounts] at lt
    by_cases early : tag.group < number + item.groupCount
    · exact Lays.exists_crossing item inside le early
    · exact LaysItems.exists_crossing (next :: rest) others (by omega) (by omega)

end

end Plan

theorem Regex.groupCount_anchored (regex : Regex) (anchor : Anchor) :
    (regex.anchored anchor).groupCount = regex.groupCount + 1 := by
  cases anchor with
  | full => rfl
  | search => simp only [anchored, groupCount, groupCounts, Nat.zero_add, Nat.add_zero]

namespace Automaton

variable {regex : Regex} {anchor : Anchor} {automaton : Automaton} {connections : List Connection}

/-- An edge with a tag is the only one out of its state. -/
theorem Sits.exits_of_tag (sits : automaton.Sits connections regex anchor)
    (built : regex.automaton anchor = .ok automaton) {connection : Connection}
    (member : connection ∈ Row.connections automaton.rows) {tag : Tag}
    (carries : connection.edge.tag = some tag) :
    automaton.exits connection.source = [connection] := by
  have declared : tag ∈ automaton.tags := by
    obtain ⟨row, listed, inRow⟩ := List.mem_flatMap.1 member
    obtain ⟨edge, inEdges, rfl⟩ := List.mem_map.1 inRow
    exact sits.tagged.declared edge ⟨row, listed, inEdges⟩ tag carries
  obtain ⟨group, groupListed, own⟩ := List.mem_flatMap.1 declared
  have number : tag.group = group.number := by
    obtain rfl | rfl := List.mem_pair.1 own <;> rfl
  have few : tag.group < 0 + (regex.anchored anchor).groupCount := by
    have among := List.mem_map_of_mem (f := Group.number) groupListed
    rw [sits.numbers, List.mem_range, ← number] at among
    rwa [Nat.zero_add, regex.groupCount_anchored]
  obtain ⟨state, target, leaves⟩ :=
    Plan.Lays.exists_crossing _ sits.lays.lays (Nat.zero_le _) few
  -- The tag is on one edge only, so the state where it is crossed is the source of the edge.
  have perm := sits.lays.draws.perm_exits state
  rw [show armsOf connections state = _ from leaves.arms, List.perm_singleton] at perm
  obtain ⟨only, exits, arm⟩ := List.map_eq_singleton_iff.1 perm
  obtain ⟨onlyMember, source⟩ := mem_exitsOf.1 (exits ▸ List.mem_singleton_self only)
  have onlyCarries : only.edge.tag = some tag := congrArg Arm.tag arm
  obtain ⟨marked, -, once⟩ := exists_only_edge built sits.tagged declared
  have same : ∀ other ∈ Row.connections automaton.rows, other.edge.tag = some tag →
      other = marked := by
    intro other here has
    rw [← List.mem_singleton, ← once]
    exact List.mem_filter.2 ⟨here, decide_eq_true has⟩
  obtain rfl : connection = only :=
    (same connection member carries).trans (same only onlyMember onlyCarries).symm
  rw [source]
  exact exits

/-- The automaton of an expression is regular. -/
theorem Sits.regular (sits : automaton.Sits connections regex anchor)
    (built : regex.automaton anchor = .ok automaton) : automaton.Regular := by
  have draws := sits.lays.draws
  have shape : ∀ state, Shape ((automaton.exits state).map Connection.arm) :=
    fun state => (sits.lays.shape state).perm (draws.perm_exits state)
  refine ⟨fun state first here second there => (shape state).alike here there,
    fun state => (shape state).normal, fun state => ?_, ?_, ?_⟩
  · obtain ⟨target, reads⟩ := (shape state).reading_target
    refine ⟨target, fun connection member range label => ?_⟩
    refine ⟨reads connection member range label, ?_, ?_⟩
    · cases priority : connection.edge.priority with
      | normal => rfl
      | low => cases label.symm.trans (epsilon_of_low built (mem_exitsOf.1 member).1 priority)
    · cases carries : connection.edge.tag with
      | none => rfl
      | some tag => cases label.symm.trans (epsilon_of_tag built (mem_exitsOf.1 member).1 carries)
  · have perm := draws.perm_exits automaton.accept
    rw [sits.lays.stops, List.perm_nil, List.map_eq_nil_iff] at perm
    exact perm
  · intro state connection member marked
    obtain ⟨tag, carries⟩ := Option.ne_none_iff_exists'.1 marked
    obtain ⟨listed, rfl⟩ := mem_exitsOf.1 member
    exact sits.exits_of_tag built listed carries

end Automaton

end TaggedRegex
