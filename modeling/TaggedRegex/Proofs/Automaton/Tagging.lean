import Mathlib.Data.List.Nodup
import TaggedRegex.Automaton.Builder
import TaggedRegex.Determinised.Closure

set_option autoImplicit false

/-!
The edges that an automaton offers come out of its rows, and in a finished automaton every tag has
one slot of its own.
-/

namespace TaggedRegex

namespace Automaton

/-- The edge stands in some row. -/
def HasEdge (automaton : Automaton) (edge : Edge) : Prop :=
  ∃ row ∈ automaton.rows, edge ∈ row.edges

theorem hasEdge_of_mem_edgesAt {automaton : Automaton} {state : StateId} {label : Label}
    {edge : Edge} (member : edge ∈ automaton.edgesAt state label) : automaton.HasEdge edge := by
  unfold edgesAt at member
  split at member
  · rename_i row found
    exact ⟨row, List.mem_of_find?_eq_some found, member⟩
  · cases member

theorem hasEdge_of_mem_onChar {automaton : Automaton} {state : StateId} {c : Char} {edge : Edge}
    (member : edge ∈ automaton.onChar state c) : automaton.HasEdge edge := by
  rw [onChar, List.mem_mergeSort] at member
  obtain ⟨row, rowMember, inRow⟩ := List.mem_flatMap.1 member
  exact ⟨row, List.mem_of_mem_filter rowMember, inRow⟩

theorem hasEdge_of_mem_freeEdges {automaton : Automaton} {step : Step} {state : StateId}
    {edge : Edge} (member : edge ∈ Closure.freeEdges automaton step state) :
    automaton.HasEdge edge := by
  cases step with
  | start => exact hasEdge_of_mem_edgesAt member
  | char c => exact hasEdge_of_mem_edgesAt member
  | finish =>
    rw [Closure.freeEdges, List.mem_mergeSort, List.mem_append] at member
    exact member.elim hasEdge_of_mem_edgesAt hasEdge_of_mem_edgesAt

theorem target_mem_targets {automaton : Automaton} {edge : Edge} (has : automaton.HasEdge edge) :
    edge.target ∈ automaton.targets := by
  obtain ⟨row, rowMember, member⟩ := has
  exact List.mem_flatMap.2 ⟨row, rowMember, List.mem_map_of_mem member⟩

/-- No tag occurs twice among the tags, and every tag on an edge is among them. -/
structure WellTagged (automaton : Automaton) : Prop where
  distinct : automaton.tags.Nodup
  declared : ∀ edge, automaton.HasEdge edge → ∀ tag, edge.tag = some tag → tag ∈ automaton.tags

/-- The slot of a tag is the only place at which it stands. -/
theorem WellTagged.exists_slot {automaton : Automaton} (tagged : automaton.WellTagged) {tag : Tag}
    (member : tag ∈ automaton.tags) :
    ∃ slot, automaton.slot? tag = some slot ∧
      ∀ i : Nat, automaton.tags[i]? = some tag ↔ i = slot := by
  cases found : automaton.slot? tag with
  | none => exact absurd member (List.idxOf?_eq_none_iff.1 found)
  | some slot =>
    obtain ⟨inside, here, -⟩ := List.idxOf?_eq_some_iff.1 found
    refine ⟨slot, rfl, fun i => ?_⟩
    constructor
    · intro there
      obtain ⟨iInside, same⟩ := List.getElem?_eq_some_iff.1 there
      exact (List.Nodup.getElem_inj_iff tagged.distinct).1 (same.trans here.symm)
    · rintro rfl
      rw [List.getElem?_eq_getElem inside, here]

theorem nodup_flatMap_boundaries (groups : List Group)
    (distinct : (groups.map Group.number).Nodup) :
    (groups.flatMap fun group => [group.startTag, group.endTag]).Nodup := by
  induction groups with
  | nil => exact List.nodup_nil
  | cons group rest ih =>
    rw [List.map_cons, List.nodup_cons] at distinct
    rw [List.flatMap_cons, List.nodup_append]
    refine ⟨by simp [Group.startTag, Group.endTag], ih distinct.2, ?_⟩
    intro tag here other later
    obtain ⟨next, nextMember, inNext⟩ := List.mem_flatMap.1 later
    have sameGroup : ∀ (g : Group) (t : Tag), t ∈ [g.startTag, g.endTag] → t.group = g.number := by
      intro g t member
      rcases List.mem_pair.1 member with rfl | rfl <;> rfl
    rintro rfl
    have number : next.number = group.number :=
      (sameGroup next tag inNext).symm.trans (sameGroup group tag here)
    exact distinct.1 (List.mem_map.2 ⟨next, nextMember, number⟩)

end Automaton

/-- What `build` checks: groups numbered without a gap, and no tag of another group. -/
theorem Builder.build_eq_ok {builder : Builder} {automaton : Automaton}
    (built : builder.build = .ok automaton) :
    builder.initial = some automaton.initial ∧ builder.accept = some automaton.accept ∧
      automaton.rows = builder.rows ∧ automaton.groups = builder.groups ∧
      automaton.groups.map Group.number = List.range automaton.groups.length ∧
      automaton.WellTagged := by
  unfold build at built
  split at built
  · cases built
  · cases built
  · rename_i initial accept hasInitial hasAccept
    split at built
    · cases built
    · rename_i dense
      simp only at built
      split at built
      · cases built
      · rename_i noneMissing
        obtain rfl := Except.ok.inj built
        rw [ne_eq, not_not] at dense
        refine ⟨hasInitial, hasAccept, rfl, rfl, dense, ?_, ?_⟩
        · apply Automaton.nodup_flatMap_boundaries
          show (builder.groups.map Group.number).Nodup
          rw [dense]
          exact List.nodup_range
        · intro edge has tag carries
          obtain ⟨row, rowMember, member⟩ := has
          have among : tag ∈ builder.rows.flatMap fun row => row.edges.filterMap Edge.tag :=
            List.mem_flatMap.2 ⟨row, rowMember, List.mem_filterMap.2 ⟨edge, member, carries⟩⟩
          have known := List.find?_eq_none.1 noneMissing tag among
          simpa using known

end TaggedRegex
