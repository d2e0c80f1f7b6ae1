import Mathlib.Data.List.Perm.Basic
import TaggedRegex.Proofs.Automaton.Capacity
import TaggedRegex.Proofs.Automaton.Groups

set_option autoImplicit false

/-!
Which edges carry tags. The automaton of an expression has one epsilon edge for the beginning and
one for the end of every group, and no other edge with a tag; the slots of the tags follow the
numbers of the groups.
-/

namespace TaggedRegex

/-- All edges, row by row. -/
def Row.connections (rows : List Row) : List Connection :=
  rows.flatMap fun row => row.edges.map fun edge => ⟨row.source, row.label, edge⟩

/-- What is read off an edge with a tag: what it asks of the input, and the tag. -/
def Connection.mark? (connection : Connection) : Option (Label × Tag) :=
  connection.edge.tag.map fun tag => (connection.label, tag)

/-- The marks with which a group is laid out. -/
def Group.marks (group : Group) : List (Label × Tag) :=
  [(.epsilon, group.startTag), (.epsilon, group.endTag)]

theorem Edge.perm_insertInto (edge : Edge) (edges : List Edge) :
    (edge.insertInto edges).Perm (edge :: edges) := by
  unfold insertInto
  cases edge.priority with
  | low => exact List.perm_append_singleton edge edges
  | normal =>
    refine List.perm_middle.trans ?_
    rw [List.takeWhile_append_dropWhile]

theorem Row.perm_connections_insertEdge (source : StateId) (label : Label) (edge : Edge)
    (rows : List Row) :
    (connections (insertEdge source label edge rows)).Perm
      (⟨source, label, edge⟩ :: connections rows) := by
  induction rows with
  | nil => exact List.Perm.refl _
  | cons row rest ih =>
    rw [insertEdge]
    split
    · rename_i same
      obtain ⟨rfl, rfl⟩ := same
      have joined := (edge.perm_insertInto row.edges).map fun edge =>
        (⟨row.source, row.label, edge⟩ : Connection)
      exact joined.append_right (connections rest)
    · split
      · exact List.Perm.refl _
      · have behind := ih.append_left (row.edges.map fun edge =>
          (⟨row.source, row.label, edge⟩ : Connection))
        exact behind.trans List.perm_middle

namespace Builder

/-- The marks on all edges. -/
def marks (builder : Builder) : List (Label × Tag) :=
  (Row.connections builder.rows).filterMap Connection.mark?

theorem perm_marks_connect (builder : Builder) (source : StateId) (label : Label)
    (target : StateId) (priority : Priority) (tag : Option Tag) :
    (builder.connect source label target priority tag).marks.Perm
      ((tag.map fun tag => (label, tag)).toList ++ builder.marks) := by
  have added := (Row.perm_connections_insertEdge source label
    ⟨target, priority, tag, builder.connected⟩ builder.rows).filterMap Connection.mark?
  refine added.trans ?_
  cases tag <;> exact List.Perm.refl _

/-- On the way from one builder to another some groups have been declared, and their tags are those
that have been put on edges. -/
def Marks (before after : Builder) : Prop :=
  ∃ added : List Group, after.groups.Perm (added ++ before.groups) ∧
    after.marks.Perm (added.flatMap Group.marks ++ before.marks)

theorem Marks.of_same {before after : Builder} (groups : after.groups = before.groups)
    (marks : after.marks.Perm before.marks) : Marks before after :=
  ⟨[], groups ▸ List.Perm.refl _, marks⟩

theorem Marks.trans {before middle after : Builder} (first : Marks before middle)
    (second : Marks middle after) : Marks before after := by
  obtain ⟨early, earlyGroups, earlyMarks⟩ := first
  obtain ⟨late, lateGroups, lateMarks⟩ := second
  refine ⟨late ++ early, ?_, ?_⟩
  · rw [List.append_assoc]
    exact lateGroups.trans (earlyGroups.append_left late)
  · rw [List.flatMap_append, List.append_assoc]
    exact lateMarks.trans (earlyMarks.append_left _)

/-- A body between the tags of a group. -/
theorem Marks.around {start inner : Builder} {group : Group} {head first : StateId}
    (body : Marks (start.connect head .epsilon first .normal (some group.startTag)) inner)
    (last tail : StateId) :
    ∃ added : List Group,
      (inner.connect last .epsilon tail .normal (some group.endTag)).groups.Perm
        (added ++ start.groups) ∧
      (inner.connect last .epsilon tail .normal (some group.endTag)).marks.Perm
        (added.flatMap Group.marks ++ (group.marks ++ start.marks)) := by
  obtain ⟨added, groups, marks⟩ := body
  refine ⟨added, groups, ?_⟩
  have opened : (start.connect head .epsilon first .normal (some group.startTag)).marks.Perm
      ((.epsilon, group.startTag) :: start.marks) := perm_marks_connect ..
  have closed : (inner.connect last .epsilon tail .normal (some group.endTag)).marks.Perm
      ((.epsilon, group.endTag) :: inner.marks) := perm_marks_connect ..
  have inside := marks.trans (opened.append_left (added.flatMap Group.marks))
  have whole := closed.trans (inside.cons (.epsilon, group.endTag))
  have ordered := List.Perm.swap (.epsilon, group.startTag) (.epsilon, group.endTag) start.marks
  exact whole.trans (List.perm_middle.symm.trans (ordered.append_left _))

/-- Every operation puts the tags of the groups it declares on edges, and no others. -/
theorem carried_marks : Carried Marks where
  refl _ := .of_same rfl (List.Perm.refl _)
  trans first second := first.trans second
  state success := by
    rw [state_eq_ok success]
    exact .of_same rfl (List.Perm.refl _)
  connect builder source label target priority _ :=
    .of_same rfl (perm_marks_connect builder source label target priority none)
  group {before declared stocked inner group head first last tail} declares fresh body := by
    obtain rfl := declareGroup_eq_ok declares
    obtain rfl := twoStates_eq_ok fresh
    obtain ⟨added, groups, marks⟩ := body.around last tail
    refine ⟨added ++ [group], ?_, ?_⟩
    · rw [List.append_assoc]
      exact groups.trans ((group.perm_insertInto before.groups).append_left added)
    · rw [List.flatMap_append, List.append_assoc]
      exact marks

end Builder

namespace Automaton

/-- The marks on the edges are those of the groups. -/
theorem perm_marks {regex : Regex} {anchor : Anchor} {automaton : Automaton}
    (built : regex.automaton anchor = .ok automaton) :
    ((Row.connections automaton.rows).filterMap Connection.mark?).Perm
      (automaton.groups.flatMap Group.marks) := by
  obtain ⟨after, finished, start, inner, head, first, last, tail, early, body, late⟩ :=
    Builder.carried_marks.automaton built
  obtain ⟨-, -, rows, groups, -⟩ := Builder.build_eq_ok finished
  obtain ⟨before, beforeGroups, beforeMarks⟩ := early
  obtain ⟨between, betweenGroups, betweenMarks⟩ := body.around last tail
  obtain ⟨behind, behindGroups, behindMarks⟩ := late
  have listed : automaton.groups.Perm (behind ++ (between ++ (before ++ [.entireMatch]))) := by
    rw [groups]
    exact behindGroups.trans ((betweenGroups.trans (beforeGroups.append_left _)).append_left _)
  -- Group 0 was there from the start, but its tags come when the groups before it have theirs.
  have marked : after.marks.Perm (behind.flatMap Group.marks ++ (between.flatMap Group.marks ++
      (Group.entireMatch.marks ++ before.flatMap Group.marks))) := by
    have begun := beforeMarks
    rw [show Builder.framed.marks = [] from rfl, List.append_nil] at begun
    have opened := begun.append_left Group.entireMatch.marks
    exact behindMarks.trans ((betweenMarks.trans (opened.append_left _)).append_left _)
  have expected := (listed.flatMap_right Group.marks).symm
  simp only [List.flatMap_append, List.flatMap_singleton] at expected
  rw [rows]
  refine marked.trans (List.Perm.trans ?_ expected)
  exact ((List.perm_append_comm).append_left _).append_left _

theorem marks_eq_tags (automaton : Automaton) :
    automaton.groups.flatMap Group.marks = automaton.tags.map fun tag => (.epsilon, tag) := by
  rw [tags, List.map_flatMap]
  rfl

/-- Of all marks those with a tag, looked up among the edges. -/
theorem filter_marks (connections : List Connection) (tag : Tag) :
    (connections.filterMap Connection.mark?).filter (fun mark => mark.2 = tag) =
      (connections.filter fun connection => connection.edge.tag = some tag).map
        fun connection => (connection.label, tag) := by
  induction connections with
  | nil => rfl
  | cons connection rest ih =>
    cases carries : connection.edge.tag with
    | none =>
      rw [List.filterMap_cons_none (by rw [Connection.mark?, carries]; rfl), ih,
        List.filter_cons_of_neg (by simp [carries])]
    | some other =>
      have here : connection.mark? = some (connection.label, other) := by
        rw [Connection.mark?, carries]
        rfl
      rw [List.filterMap_cons_some here]
      by_cases same : other = tag
      · rw [List.filter_cons_of_pos (by simpa using same),
          List.filter_cons_of_pos (by simp [carries, same]), ih, List.map_cons, same]
      · rw [List.filter_cons_of_neg (by simpa using same),
          List.filter_cons_of_neg (by simp [carries, same]), ih]

/-- Every tag of a group is on one edge, and that is an epsilon edge. -/
theorem exists_only_edge {regex : Regex} {anchor : Anchor} {automaton : Automaton}
    (built : regex.automaton anchor = .ok automaton) (tagged : automaton.WellTagged) {tag : Tag}
    (member : tag ∈ automaton.tags) :
    ∃ connection : Connection, connection.label = .epsilon ∧
      (Row.connections automaton.rows).filter (fun other => other.edge.tag = some tag) =
        [connection] := by
  have found := (perm_marks built).filter fun mark => mark.2 = tag
  have once : automaton.tags.filter (fun other => other = tag) = [tag] := by
    rw [List.filter_eq, List.count_eq_one_of_mem tagged.distinct member]
    rfl
  have only : (automaton.groups.flatMap Group.marks).filter (fun mark => mark.2 = tag) =
      [(.epsilon, tag)] := by
    rw [marks_eq_tags, List.filter_map]
    exact congrArg (List.map fun tag => (Label.epsilon, tag)) once
  rw [only, filter_marks, List.perm_singleton] at found
  obtain ⟨connection, alone, same⟩ := List.map_eq_singleton_iff.1 found
  exact ⟨connection, (Prod.mk.inj same).1, alone⟩

/-! ### Slots -/

end Automaton

end TaggedRegex
