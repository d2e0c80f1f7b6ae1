import TaggedRegex.Proofs.Language.Waymarks
import TaggedRegex.Regex.Basic

set_option autoImplicit false

/-!
Which tags an expression crosses. This is said for the expression, without an automaton and without
an input: a repetition may go on for any number of rounds, and the end of the input may be asked for
anywhere.
-/

namespace TaggedRegex

/-- On some way through the expression these tags are crossed, the groups being numbered from
`number` on. -/
inductive Regex.Crosses : Regex → Nat → Waymarks → Prop
  | any (number : Nat) : Crosses .any number []
  | lit (number : Nat) (c : Char) : Crosses (.lit c) number []
  | set (number : Nat) {range : CharRange} {ranges : List CharRange} :
      range ∈ ranges → Crosses (.set ranges) number []
  | atEnd (number : Nat) : Crosses .atEnd number []
  | group {body : Regex} {number : Nat} {tags : Waymarks} :
      Crosses body (number + 1) tags → Crosses (.group body) number (tags.wrap number)
  | starDone (greed : Greed) (body : Regex) (number : Nat) :
      Crosses (.rep .star greed body) number []
  | starMore {greed : Greed} {body : Regex} {number : Nat} {first second : Waymarks} :
      Crosses body number first → Crosses (.rep .star greed body) number second →
      Crosses (.rep .star greed body) number (first ++ second)
  | plus {greed : Greed} {body : Regex} {number : Nat} {first second : Waymarks} :
      Crosses body number first → Crosses (.rep .star greed body) number second →
      Crosses (.rep .plus greed body) number (first ++ second)
  | optNone (greed : Greed) (body : Regex) (number : Nat) :
      Crosses (.rep .opt greed body) number []
  | optSome {greed : Greed} {body : Regex} {number : Nat} {tags : Waymarks} :
      Crosses body number tags → Crosses (.rep .opt greed body) number tags
  | altHere {branch : Regex} {others : List Regex} {number : Nat} {tags : Waymarks} :
      Crosses branch number tags → Crosses (.alt (branch :: others)) number tags
  | altLater {branch : Regex} {others : List Regex} {number : Nat} {tags : Waymarks} :
      Crosses (.alt others) (number + branch.groupCount) tags →
      Crosses (.alt (branch :: others)) number tags
  | catNil (number : Nat) : Crosses (.cat []) number []
  | catCons {item : Regex} {items : List Regex} {number : Nat} {first second : Waymarks} :
      Crosses item number first → Crosses (.cat items) (number + item.groupCount) second →
      Crosses (.cat (item :: items)) number (first ++ second)

namespace Regex

variable {regex body : Regex} {number : Nat} {tags : Waymarks}

/-- Only tags of the groups of the expression itself are crossed. -/
theorem Crosses.own (crosses : regex.Crosses number tags) :
    ∀ tag ∈ tags, number ≤ tag.group ∧ tag.group < number + regex.groupCount := by
  induction crosses with
  | any | lit | set | atEnd | starDone | optNone | catNil =>
    exact fun tag member => absurd member List.not_mem_nil
  | group _ ih =>
    intro tag member
    rw [groupCount]
    simp only [Waymarks.wrap, List.mem_append, List.mem_singleton] at member
    obtain rfl | inside | rfl := member
    · exact ⟨Nat.le_refl _, by simp⟩
    · have bounds := ih tag inside
      omega
    · exact ⟨Nat.le_refl _, by simp⟩
  | starMore _ _ ihFirst ihMore =>
    intro tag member
    exact (List.mem_append.1 member).elim (ihFirst tag) (ihMore tag)
  | plus _ _ ihFirst ihMore =>
    intro tag member
    exact (List.mem_append.1 member).elim (ihFirst tag) (ihMore tag)
  | optSome _ ih => exact ih
  | altHere _ ih =>
    intro tag member
    have bounds := ih tag member
    simp only [groupCount, groupCounts]
    omega
  | altLater _ ih =>
    intro tag member
    have bounds := ih tag member
    simp only [groupCount, groupCounts] at bounds ⊢
    omega
  | catCons _ _ ihFirst ihMore =>
    intro tag member
    simp only [groupCount, groupCounts] at ihMore ⊢
    obtain inFirst | inMore := List.mem_append.1 member
    · have bounds := ihFirst tag inFirst
      omega
    · have bounds := ihMore tag inMore
      omega

/-- The tags inside a group are those of other groups. -/
theorem Crosses.ne_of_outside (crosses : body.Crosses (number + 1) tags) :
    ∀ tag ∈ tags, tag.group ≠ number := by
  intro tag member same
  have bounds := crosses.own tag member
  omega

/-- Where there are no groups no tags are crossed. -/
theorem Crosses.eq_nil (crosses : regex.Crosses number tags) (none : regex.groupCount = 0) :
    tags = [] := by
  apply List.eq_nil_iff_forall_not_mem.2
  intro tag member
  have bounds := crosses.own tag member
  omega

end Regex

end TaggedRegex
