import TaggedRegex.Proofs.Automaton.Groups
import TaggedRegex.Proofs.Language.Anchored

set_option autoImplicit false

/-!
Nesting. Where the groups of a match begin and end agrees with where they stand in the expression:
a group takes one place after the other, each of them inside a place of the group around it, and
what it spans is matched by what stands inside it.
-/

namespace TaggedRegex

namespace Marking

variable {marking : Marking} {number first limit : Nat}

/-- The marks of a match from `low` to `high` fit the groups of the table, except that a group which
is excused need not lie inside the group around it. -/
structure Fits (table : List (Group × Regex)) (input : List Char) (excused : Group → Prop)
    (low high : Nat) (marking : Marking) : Prop where
  balanced : marking.Balanced
  bounded : ∀ group, ∀ extent ∈ marking.extents group,
    low ≤ extent.1 ∧ extent.1 ≤ extent.2 ∧ extent.2 ≤ high
  ordered : ∀ group, (marking.extents group).Pairwise fun early late => early.2 ≤ late.1
  nested : ∀ entry ∈ table, excused entry.1 ∨ ∀ extent ∈ marking.extents entry.1.number,
    ∃ around ∈ marking.extents entry.1.parent, around.1 ≤ extent.1 ∧ extent.2 ≤ around.2
  spelled : ∀ entry ∈ table, ∀ extent ∈ marking.extents entry.1.number,
    entry.2.MatchesAt input extent.1 extent.2

namespace Fits

variable {table : List (Group × Regex)} {input : List Char} {excused : Group → Prop}
  {low middle high : Nat}

theorem nil : Fits table input excused low high [] := by
  have none : ∀ group extent, extent ∉ extents [] group := fun _ _ => List.not_mem_nil
  exact ⟨balanced_nil, fun group extent member => absurd member (none group extent),
    fun _ => List.Pairwise.nil,
    fun entry _ => Or.inr fun extent member => absurd member (none _ extent),
    fun entry _ extent member => absurd member (none _ extent)⟩

theorem append {second : Marking} (early : marking.Fits table input excused low middle)
    (late : second.Fits table input excused middle high) (le : low ≤ middle) (le' : middle ≤ high) :
    Fits table input excused low high (marking ++ second) := by
  have joined := early.balanced.extents_append second
  refine ⟨early.balanced.append late.balanced, ?_, ?_, ?_, ?_⟩
  · intro group extent member
    rw [joined, List.mem_append] at member
    obtain inFirst | inSecond := member
    · have bounds := early.bounded group extent inFirst
      omega
    · have bounds := late.bounded group extent inSecond
      omega
  · intro group
    rw [joined, List.pairwise_append]
    refine ⟨early.ordered group, late.ordered group, ?_⟩
    intro before inFirst after inSecond
    exact Nat.le_trans (early.bounded group before inFirst).2.2
      (late.bounded group after inSecond).1
  · intro entry listed
    obtain excused | firstNested := early.nested entry listed
    · exact Or.inl excused
    obtain excused | secondNested := late.nested entry listed
    · exact Or.inl excused
    right
    intro extent member
    rw [joined, List.mem_append] at member
    rw [joined]
    obtain inFirst | inSecond := member
    · obtain ⟨around, aroundMember, inside⟩ := firstNested extent inFirst
      exact ⟨around, List.mem_append_left _ aroundMember, inside⟩
    · obtain ⟨around, aroundMember, inside⟩ := secondNested extent inSecond
      exact ⟨around, List.mem_append_right _ aroundMember, inside⟩
  · intro entry listed extent member
    rw [joined, List.mem_append] at member
    exact member.elim (early.spelled entry listed extent) (late.spelled entry listed extent)

theorem excuse {wider : Group → Prop} (fits : marking.Fits table input excused low high)
    (implies : ∀ entry ∈ table, excused entry.1 → wider entry.1) :
    marking.Fits table input wider low high :=
  ⟨fits.balanced, fits.bounded, fits.ordered,
    fun entry listed => (fits.nested entry listed).imp_left (implies entry listed), fits.spelled⟩

/-- The marks of a group hold what was excused for being inside it. -/
theorem wrap (fits : marking.Fits table input (fun group => group.parent = number) first limit)
    (absent : ∀ mark ∈ marking, mark.tag.group ≠ number) (le : first ≤ limit)
    (own : ∀ entry ∈ table, entry.1.number = number → entry.2.MatchesAt input first limit) :
    (marking.wrap number first limit).Fits table input (fun group => group.number = number)
      first limit := by
  have self := extents_wrap_self first limit absent
  have others := fun group (other : number ≠ group) =>
    extents_wrap_of_ne other first limit marking
  refine ⟨fits.balanced.wrap number first limit, ?_, ?_, ?_, ?_⟩
  · intro group extent member
    by_cases same : number = group
    · rw [← same, self, List.mem_singleton] at member
      rw [member]
      exact ⟨Nat.le_refl _, le, Nat.le_refl _⟩
    · rw [others group same] at member
      exact fits.bounded group extent member
  · intro group
    by_cases same : number = group
    · rw [← same, self]
      exact List.pairwise_singleton _ _
    · rw [others group same]
      exact fits.ordered group
  · intro entry listed
    by_cases same : number = entry.1.number
    · exact Or.inl same.symm
    right
    intro extent member
    rw [others _ same] at member
    by_cases inside : number = entry.1.parent
    · have bounds := fits.bounded _ extent member
      refine ⟨(first, limit), ?_, bounds.1, bounds.2.2⟩
      rw [← inside, self]
      exact List.mem_singleton_self _
    · rw [others _ inside]
      obtain parent | nested := fits.nested entry listed
      · exact absurd parent.symm inside
      · exact nested extent member
  · intro entry listed extent member
    by_cases same : number = entry.1.number
    · rw [← same, self, List.mem_singleton] at member
      rw [member]
      exact own entry listed same.symm
    · rw [others _ same] at member
      exact fits.spelled entry listed extent member

end Fits

end Marking

namespace Regex

/-- Groups with different numbers, among them all that an expression has when its groups are
numbered from `number` on inside the group `parent`. -/
structure Listed (table : List (Group × Regex)) (regex : Regex) (number parent : Nat) : Prop where
  distinct : (table.map fun entry => entry.1.number).Nodup
  inside : ∀ entry ∈ regex.nested number parent, entry ∈ table

theorem Listed.mono {table : List (Group × Regex)} {regex part : Regex}
    {number parent number' parent' : Nat} (listed : Listed table regex number parent)
    (subset : part.nested number' parent' ⊆ regex.nested number parent) :
    Listed table part number' parent' :=
  ⟨listed.distinct, fun entry member => listed.inside entry (subset member)⟩

theorem Listed.of_group {table : List (Group × Regex)} {body : Regex} {number parent : Nat}
    (listed : Listed table (.group body) number parent) :
    Listed table body (number + 1) number := by
  apply listed.mono
  rw [nested]
  exact List.subset_cons_self _ _

theorem Listed.of_rep {table : List (Group × Regex)} {quantifier : Quantifier} {greed : Greed}
    {body : Regex} {number parent : Nat}
    (listed : Listed table (.rep quantifier greed body) number parent) :
    Listed table body number parent := by
  apply listed.mono
  rw [nested]
  exact fun _ => id

theorem Listed.quantified {table : List (Group × Regex)} {quantifier : Quantifier} {greed : Greed}
    {body : Regex} {number parent : Nat}
    (listed : Listed table (.rep quantifier greed body) number parent) (other : Quantifier) :
    Listed table (.rep other greed body) number parent := by
  apply listed.mono
  rw [nested, nested]
  exact fun _ => id

theorem Listed.of_branch {table : List (Group × Regex)} {branch : Regex} {others : List Regex}
    {number parent : Nat} (listed : Listed table (.alt (branch :: others)) number parent) :
    Listed table branch number parent ∧
      Listed table (.alt others) (number + branch.groupCount) parent := by
  constructor <;> apply listed.mono
  · rw [nested, nestedAll]
    exact List.subset_append_left _ _
  · rw [nested, nested, nestedAll]
    exact List.subset_append_right _ _

theorem Listed.of_item {table : List (Group × Regex)} {item : Regex} {others : List Regex}
    {number parent : Nat} (listed : Listed table (.cat (item :: others)) number parent) :
    Listed table item number parent ∧
      Listed table (.cat others) (number + item.groupCount) parent := by
  constructor <;> apply listed.mono
  · rw [nested, nestedAll]
    exact List.subset_append_left _ _
  · rw [nested, nested, nestedAll]
    exact List.subset_append_right _ _

/-- The number tells a group from all others. -/
theorem Listed.eq_of_group {table : List (Group × Regex)} {body : Regex} {number parent : Nat}
    (listed : Listed table (.group body) number parent) {entry : Group × Regex}
    (member : entry ∈ table) (same : entry.1.number = number) :
    entry = (⟨number, parent⟩, body) := by
  have own : (⟨number, parent⟩, body) ∈ table := by
    apply listed.inside
    rw [nested]
    exact List.mem_cons_self ..
  exact List.inj_on_of_nodup_map listed.distinct member own same

variable {regex : Regex} {number consumed : Nat} {word behind : List Char} {marking : Marking}
  {table : List (Group × Regex)} {input front : List Char} {parent : Nat}

/-- The marks of a group fit if the marks inside it do. -/
theorem Marks.fits_group (listed : Listed table (.group regex) number parent)
    (marks : regex.Marks (number + 1) consumed word behind marking)
    (same : input = front ++ (word ++ behind)) (length : front.length = consumed)
    (fits : marking.Fits table input (fun group => group.parent = number) consumed
      (consumed + word.length)) :
    (marking.wrap number consumed (consumed + word.length)).Fits table input
      (fun group => group.number = number) consumed (consumed + word.length) := by
  apply fits.wrap ?_ (Nat.le_add_right _ _)
  · intro entry member own
    rw [listed.eq_of_group member own, same, ← length]
    exact matchesAt_append marks.spells
  · exact marks.ne_of_outside

/-- The marks of a match fit the groups of the expression. -/
theorem Marks.fits (marks : regex.Marks number consumed word behind marking)
    (listed : Listed table regex number parent) (same : input = front ++ (word ++ behind))
    (length : front.length = consumed) :
    marking.Fits table input (fun group => group.parent = parent) consumed
      (consumed + word.length) := by
  induction marks generalizing front parent with
  | any | lit | set | starDone | optNone | catNil | atEnd => exact .nil
  | @group body number consumed word behind marking marks ih =>
    apply (marks.fits_group listed same length (ih listed.of_group same length)).excuse
    intro entry member own
    rw [listed.eq_of_group member own]
  | @starMore greed body number consumed word more behind first second _ _ ihFirst ihMore =>
    rw [List.append_assoc] at same
    rw [List.length_append, ← Nat.add_assoc]
    apply (ihFirst listed.of_rep same length).append _ (Nat.le_add_right _ _) (Nat.le_add_right _ _)
    rw [← List.append_assoc] at same
    exact ihMore listed same (by rw [List.length_append, length])
  | @plus greed body number consumed word more behind first second _ _ ihFirst ihMore =>
    rw [List.append_assoc] at same
    rw [List.length_append, ← Nat.add_assoc]
    apply (ihFirst listed.of_rep same length).append _ (Nat.le_add_right _ _) (Nat.le_add_right _ _)
    rw [← List.append_assoc] at same
    exact ihMore (listed.quantified .star) same (by rw [List.length_append, length])
  | optSome _ ih => exact ih listed.of_rep same length
  | altHere _ ih => exact ih listed.of_branch.1 same length
  | altLater _ ih => exact ih listed.of_branch.2 same length
  | @catCons item items number consumed word more behind first second _ _ ihFirst ihMore =>
    rw [List.append_assoc] at same
    obtain ⟨inItem, inItems⟩ := listed.of_item
    rw [List.length_append, ← Nat.add_assoc]
    apply (ihFirst inItem same length).append _ (Nat.le_add_right _ _) (Nat.le_add_right _ _)
    rw [← List.append_assoc] at same
    exact ihMore inItems same (by rw [List.length_append, length])

theorem listed_captureGroups (regex : Regex) :
    Listed regex.captureGroups (.group regex) 0 0 := by
  refine ⟨?_, fun _ => id⟩
  rw [numbers_captureGroups]
  exact List.nodup_range

/-- The marks of a match against all of the input fit the groups of the expression, and group 0 has
one place, which is everything unless this is a search. -/
theorem Marks.fits_anchored {anchor : Anchor}
    (marks : (regex.anchored anchor).Marks 0 0 input [] marking) :
    ∃ first limit, marking.extents 0 = [(first, limit)] ∧
      (anchor = .full → first = 0 ∧ limit = input.length) ∧
      marking.Fits regex.captureGroups input (fun group => group.number = 0) first limit := by
  obtain ⟨front, word, behind, same, nothing, entire⟩ := (marks_anchored_iff anchor).1 marks
  refine ⟨front.length, front.length + word.length, entire.extents_group, ?_, ?_⟩
  · intro full
    obtain ⟨rfl, rfl⟩ := nothing full
    simp [same]
  · cases entire with
    | group inside =>
      have listed := listed_captureGroups regex
      exact inside.fits_group listed same rfl (inside.fits listed.of_group same rfl)

end Regex

end TaggedRegex
