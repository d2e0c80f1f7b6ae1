import Mathlib.Data.List.Basic
import TaggedRegex.Capture.Tag

set_option autoImplicit false

/-!
The tags along a path, whatever the path reads. Where every group is passed through in turn, the
passes through a group stay apart when paths are joined, and one group lies inside another as soon
as the tags of the other are put around it.
-/

namespace TaggedRegex

/-- Tags in the order in which a path crosses them. -/
abbrev Waymarks := List Tag

namespace Waymarks

/-- The tags of one group. -/
def ofGroup (tags : Waymarks) (group : Nat) : Waymarks := tags.filter fun tag => tag.group = group

/-- So many times into a group and out of it again. -/
def rounds (group count : Nat) : Waymarks :=
  (List.replicate count [⟨group, .opening⟩, ⟨group, .closing⟩]).flatten

/-- The group is entered and left in turn, as often as it may be, and it is left in the end. -/
def Alternates (tags : Waymarks) (group : Nat) : Prop :=
  ∃ count, tags.ofGroup group = rounds group count

/-- The group begins at one place, and at the next place with a tag of the group it ends. -/
structure Pass (tags : Waymarks) (group first last : Nat) : Prop where
  opens : tags[first]? = some ⟨group, .opening⟩
  closes : tags[last]? = some ⟨group, .closing⟩
  before : first < last
  apart : ∀ place tag, first < place → place < last → tags[place]? = some tag → tag.group ≠ group

/-- Every pass through the one group lies within a pass through the other. -/
def Inside (tags : Waymarks) (inner outer : Nat) : Prop :=
  ∀ first last, tags.Pass inner first last →
    ∃ before after, before < first ∧ last < after ∧ tags.Pass outer before after

/-- Tags between the two tags of a group. -/
def wrap (tags : Waymarks) (number : Nat) : Waymarks :=
  [⟨number, .opening⟩] ++ (tags ++ [⟨number, .closing⟩])

variable {tags first second : Waymarks} {group number : Nat}

@[simp] theorem ofGroup_append (first second : Waymarks) (group : Nat) :
    ofGroup (first ++ second) group = first.ofGroup group ++ second.ofGroup group :=
  List.filter_append ..

theorem ofGroup_eq_nil (absent : ∀ tag ∈ tags, tag.group ≠ group) : tags.ofGroup group = [] := by
  simpa [ofGroup] using absent

/-- A group that has no tags between its own ones is entered and left once. -/
theorem ofGroup_wrap_self (absent : ∀ tag ∈ tags, tag.group ≠ number) :
    (tags.wrap number).ofGroup number = rounds number 1 := by
  rw [wrap, ofGroup_append, ofGroup_append, ofGroup_eq_nil absent]
  simp [ofGroup, rounds]

theorem ofGroup_single_of_ne {tag : Tag} (other : tag.group ≠ group) : ofGroup [tag] group = [] :=
  ofGroup_eq_nil fun _ member => List.mem_singleton.1 member ▸ other

theorem ofGroup_wrap_of_ne (other : number ≠ group) (tags : Waymarks) :
    (tags.wrap number).ofGroup group = tags.ofGroup group := by
  rw [wrap, ofGroup_append, ofGroup_append, ofGroup_single_of_ne other, ofGroup_single_of_ne other,
    List.nil_append, List.append_nil]

theorem rounds_add (group first second : Nat) :
    rounds group (first + second) = rounds group first ++ rounds group second := by
  rw [rounds, List.replicate_add, List.flatten_append]
  rfl

/-- The last of some rounds does not leave the group open. -/
theorem getLast?_rounds (group count : Nat) :
    (rounds group count).getLast? ≠ some ⟨group, .opening⟩ := by
  cases count with
  | zero => simp [rounds]
  | succ count =>
    rw [rounds_add]
    simp [rounds]

namespace Alternates

theorem of_absent (absent : ∀ tag ∈ tags, tag.group ≠ group) : tags.Alternates group :=
  ⟨0, ofGroup_eq_nil absent⟩

theorem append (early : first.Alternates group) (late : second.Alternates group) :
    Alternates (first ++ second) group := by
  obtain ⟨before, earlyRounds⟩ := early
  obtain ⟨after, lateRounds⟩ := late
  exact ⟨before + after, by rw [ofGroup_append, earlyRounds, lateRounds, rounds_add]⟩

/-- Where a group begins, one more of its tags follows. -/
theorem exists_later (alternates : tags.Alternates group) {place : Nat}
    (opens : tags[place]? = some ⟨group, .opening⟩) :
    ∃ later tag, place < later ∧ tags[later]? = some tag ∧ tag.group = group := by
  by_contra none
  push Not at none
  obtain ⟨inside, here⟩ := List.getElem?_eq_some_iff.1 opens
  have split : tags = tags.take place ++ ([⟨group, .opening⟩] ++ tags.drop (place + 1)) := by
    rw [List.singleton_append, ← here, List.getElem_cons_drop, List.take_append_drop]
  have nothing : ofGroup (tags.drop (place + 1)) group = [] := by
    apply ofGroup_eq_nil
    intro tag member
    obtain ⟨i, found⟩ := List.mem_iff_getElem?.1 member
    rw [List.getElem?_drop] at found
    exact none _ tag (by omega) found
  -- So this one would be the last tag of the group, but the last one is the end of a round.
  obtain ⟨count, alternate⟩ := alternates
  rw [split, ofGroup_append, ofGroup_append, nothing] at alternate
  apply getLast?_rounds group count
  rw [← alternate]
  simp [ofGroup]

end Alternates

namespace Pass

theorem lt_length {start finish : Nat} (pass : tags.Pass group start finish) :
    finish < tags.length := (List.getElem?_eq_some_iff.1 pass.closes).1

/-- Whether there is a pass depends on nothing but the tags from its beginning to its end. -/
theorem shift_iff {other : Waymarks} {offset start finish : Nat}
    (same : ∀ place, start ≤ place → place ≤ finish → other[offset + place]? = tags[place]?) :
    other.Pass group (offset + start) (offset + finish) ↔ tags.Pass group start finish := by
  constructor
  · rintro ⟨opens, closes, before, apart⟩
    rw [same start (Nat.le_refl _) (by omega)] at opens
    rw [same finish (by omega) (Nat.le_refl _)] at closes
    refine ⟨opens, closes, by omega, fun place tag after inside found => ?_⟩
    rw [← same place (by omega) (by omega)] at found
    exact apart _ tag (by omega) (by omega) found
  · rintro ⟨opens, closes, before, apart⟩
    refine ⟨(same start (Nat.le_refl _) (by omega)).trans opens,
      (same finish (by omega) (Nat.le_refl _)).trans closes, by omega,
      fun place tag after inside found => ?_⟩
    obtain ⟨place, rfl⟩ := Nat.exists_eq_add_of_le (show offset ≤ place by omega)
    rw [same place (by omega) (by omega)] at found
    exact apart place tag (by omega) (by omega) found

theorem append_left_iff {start finish : Nat} (ends : finish < first.length) :
    Pass (first ++ second) group start finish ↔ first.Pass group start finish := by
  have same : ∀ place, start ≤ place → place ≤ finish →
      (first ++ second)[0 + place]? = first[place]? := by
    intro place _ le
    rw [Nat.zero_add, List.getElem?_append_left (by omega)]
  have shifted : Pass (first ++ second) group (0 + start) (0 + finish) ↔
      first.Pass group start finish := shift_iff same
  rwa [Nat.zero_add, Nat.zero_add] at shifted

theorem append_right_iff {start finish : Nat} :
    Pass (first ++ second) group (first.length + start) (first.length + finish) ↔
      second.Pass group start finish := by
  apply shift_iff
  intro place _ _
  rw [List.getElem?_append_right (Nat.le_add_right ..), Nat.add_sub_cancel_left]

/-- A pass on a joined path lies on one of its two parts, as the first part leaves no group open. -/
theorem of_append (early : first.Alternates group) {start finish : Nat}
    (pass : Pass (first ++ second) group start finish) :
    first.Pass group start finish ∨ ∃ start' finish', start = first.length + start' ∧
      finish = first.length + finish' ∧ second.Pass group start' finish' := by
  have before := pass.before
  by_cases begins : start < first.length
  · left
    have opens := pass.opens
    rw [List.getElem?_append_left begins] at opens
    -- The first part has one more tag of the group, and the end of the pass is not behind it.
    obtain ⟨later, tag, behind, found, own⟩ := early.exists_later opens
    have below := (List.getElem?_eq_some_iff.1 found).1
    have ends : finish < first.length := by
      by_contra beyond
      have still : (first ++ second)[later]? = some tag :=
        (List.getElem?_append_left below).trans found
      exact pass.apart later tag behind (by omega) still own
    exact (append_left_iff ends).1 pass
  · right
    obtain ⟨start, rfl⟩ := Nat.exists_eq_add_of_le (Nat.le_of_not_lt begins)
    obtain ⟨finish, rfl⟩ := Nat.exists_eq_add_of_le (show first.length ≤ finish by omega)
    exact ⟨start, finish, rfl, rfl, append_right_iff.1 pass⟩

theorem ne_nil {start finish : Nat} (pass : tags.Pass group start finish) :
    tags.ofGroup group ≠ [] := by
  have member : (⟨group, .opening⟩ : Tag) ∈ tags.ofGroup group :=
    List.mem_filter.2 ⟨List.mem_of_getElem? pass.opens, by simp⟩
  exact List.ne_nil_of_mem member

theorem wrap {start finish : Nat} (pass : tags.Pass group start finish) (number : Nat) :
    (tags.wrap number).Pass group (1 + start) (1 + finish) :=
  append_right_iff.2 ((append_left_iff pass.lt_length).2 pass)

/-- The tags of one group around a path make no passes through another one. -/
theorem of_wrap (other : number ≠ group) (alternates : tags.Alternates group) {start finish : Nat}
    (pass : (tags.wrap number).Pass group start finish) :
    ∃ start' finish', start = 1 + start' ∧ finish = 1 + finish' ∧
      tags.Pass group start' finish' := by
  have single : ∀ boundary, ofGroup [⟨number, boundary⟩] group = [] :=
    fun boundary => ofGroup_single_of_ne other
  rcases Pass.of_append ⟨0, single .opening⟩ pass with early | ⟨start, finish, rfl, rfl, onward⟩
  · exact absurd (single .opening) early.ne_nil
  rcases onward.of_append alternates with within | ⟨start, finish, rfl, rfl, late⟩
  · exact ⟨start, finish, rfl, rfl, within⟩
  · exact absurd (single .closing) late.ne_nil

end Pass

/-- The two tags around a path are a pass through their group. -/
theorem pass_wrap (absent : ∀ tag ∈ tags, tag.group ≠ number) :
    (tags.wrap number).Pass number 0 (1 + tags.length) := by
  have within : ∀ place < tags.length, (tags.wrap number)[1 + place]? = tags[place]? := by
    intro place lt
    rw [wrap, List.getElem?_append_right (by simp), List.getElem?_append_left (by simpa using lt)]
    simp
  refine ⟨rfl, ?_, by omega, fun place tag after inside found => ?_⟩
  · rw [wrap, List.getElem?_append_right (by simp), List.getElem?_append_right (by simp)]
    simp
  · obtain ⟨place, rfl⟩ := Nat.exists_eq_add_of_le (show 1 ≤ place by omega)
    rw [within place (by omega)] at found
    exact absent tag (List.mem_of_getElem? found)

namespace Inside

variable {inner outer : Nat}

theorem of_absent (absent : ∀ tag ∈ tags, tag.group ≠ inner) : tags.Inside inner outer :=
  fun _ _ pass => absurd (ofGroup_eq_nil absent) pass.ne_nil

theorem append (alternates : first.Alternates inner) (early : first.Inside inner outer)
    (late : second.Inside inner outer) : Inside (first ++ second) inner outer := by
  intro start finish pass
  rcases pass.of_append alternates with within | ⟨start, finish, rfl, rfl, within⟩
  · obtain ⟨before, after, less, more, around⟩ := early start finish within
    exact ⟨before, after, less, more, (Pass.append_left_iff around.lt_length).2 around⟩
  · obtain ⟨before, after, less, more, around⟩ := late start finish within
    exact ⟨_, _, Nat.add_lt_add_left less _, Nat.add_lt_add_left more _,
      Pass.append_right_iff.2 around⟩

theorem wrap (inside : tags.Inside inner outer) (alternates : tags.Alternates inner)
    (other : number ≠ inner) : (tags.wrap number).Inside inner outer := by
  intro start finish pass
  obtain ⟨start, finish, rfl, rfl, within⟩ := pass.of_wrap other alternates
  obtain ⟨before, after, less, more, around⟩ := inside start finish within
  exact ⟨_, _, Nat.add_lt_add_left less 1, Nat.add_lt_add_left more 1, around.wrap number⟩

/-- Whatever lies between the tags of a group lies inside the group. -/
theorem of_wrap (alternates : tags.Alternates inner) (other : number ≠ inner)
    (absent : ∀ tag ∈ tags, tag.group ≠ number) : (tags.wrap number).Inside inner number := by
  intro start finish pass
  obtain ⟨start, finish, rfl, rfl, within⟩ := pass.of_wrap other alternates
  have below := within.lt_length
  exact ⟨0, 1 + tags.length, by omega, by omega, pass_wrap absent⟩

end Inside

end Waymarks

end TaggedRegex
