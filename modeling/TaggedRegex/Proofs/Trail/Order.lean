import TaggedRegex.Proofs.Trail.Basic

set_option autoImplicit false

/-!
The order of trails. Two trails are compared at the first edge in which they differ; there the edge
that is tried first decides.
-/

namespace TaggedRegex

namespace Edge

/-- `a` is tried before `b` among the edges out of one state. -/
def Before (a b : Edge) : Prop := b.notAfter a = false

instance (a b : Edge) : Decidable (a.Before b) :=
  inferInstanceAs (Decidable (b.notAfter a = false))

theorem before_iff (a b : Edge) :
    a.Before b ↔ a.priority = .normal ∧ b.priority = .low ∨
      a.priority = b.priority ∧ a.seq < b.seq := by
  unfold Before notAfter
  cases a.priority <;> cases b.priority <;> simp

theorem Before.trans {a b c : Edge} (first : a.Before b) (second : b.Before c) : a.Before c := by
  rw [before_iff] at first second ⊢
  cases aPriority : a.priority <;> cases bPriority : b.priority <;>
    cases cPriority : c.priority <;>
    simp only [aPriority, bPriority, cPriority, reduceCtorEq, true_and, false_and, and_false,
      and_self, or_false, false_or] at first second ⊢ <;>
    omega

theorem Before.asymm {a b : Edge} (first : a.Before b) : ¬ b.Before a := by
  intro second
  have loop := first.trans second
  rw [before_iff] at loop
  rcases loop with ⟨normal, low⟩ | ⟨-, less⟩
  · rw [normal] at low
    cases low
  · exact Nat.lt_irrefl _ less

end Edge

namespace Trail

/-- At the first difference the edge of the first trail is tried before that of the second. -/
inductive Precedes : Trail → Trail → Prop
  | here {first second : Crossing} {firstRest secondRest : Trail} :
      first.edge.Before second.edge → Precedes (first :: firstRest) (second :: secondRest)
  | there {crossing : Crossing} {firstRest secondRest : Trail} :
      Precedes firstRest secondRest → Precedes (crossing :: firstRest) (crossing :: secondRest)

namespace Precedes

/-- What comes after the first difference does not matter. -/
theorem append {first second : Trail} (precedes : Precedes first second)
    (firstRest secondRest : Trail) :
    Precedes (first ++ firstRest) (second ++ secondRest) := by
  induction precedes with
  | here before => exact .here before
  | there _ ih => exact .there ih

/-- A common beginning does not matter. -/
theorem prepend (common : Trail) {first second : Trail} (precedes : Precedes first second) :
    Precedes (common ++ first) (common ++ second) := by
  induction common with
  | nil => exact precedes
  | cons crossing rest ih => exact .there ih

theorem of_prepend {common first second : Trail}
    (precedes : Precedes (common ++ first) (common ++ second)) : Precedes first second := by
  induction common with
  | nil => exact precedes
  | cons crossing rest ih =>
    apply ih
    cases precedes with
    | here before => exact absurd before (Edge.Before.asymm before)
    | there later => exact later

theorem trans {first second third : Trail} (early : Precedes first second)
    (late : Precedes second third) : Precedes first third := by
  induction early generalizing third with
  | here before =>
    cases late with
    | here next => exact .here (before.trans next)
    | there _ => exact .here before
  | there _ ih =>
    cases late with
    | here next => exact .here next
    | there later => exact .there (ih later)

theorem asymm {first second : Trail} (early : Precedes first second) :
    ¬ Precedes second first := by
  intro late
  induction early with
  | here before =>
    cases late with
    | here after => exact before.asymm after
    | there _ => exact before.asymm before
  | there _ ih =>
    cases late with
    | here after => exact after.asymm after
    | there later => exact ih later

end Precedes

/-- The first trail is the second one or precedes it. -/
def NotAfter (first second : Trail) : Prop := first = second ∨ Precedes first second

theorem NotAfter.prepend (common : Trail) {first second : Trail} (le : NotAfter first second) :
    NotAfter (common ++ first) (common ++ second) := by
  rcases le with rfl | precedes
  · exact Or.inl rfl
  · exact Or.inr (precedes.prepend common)

theorem NotAfter.append {first second : Trail} (le : NotAfter first second) (rest : Trail) :
    NotAfter (first ++ rest) (second ++ rest) := by
  rcases le with rfl | precedes
  · exact Or.inl rfl
  · exact Or.inr (precedes.append rest rest)

theorem NotAfter.trans {first second third : Trail} (early : NotAfter first second)
    (late : NotAfter second third) : NotAfter first third := by
  rcases late with rfl | precedes
  · exact early
  · rcases early with rfl | before
    · exact Or.inr precedes
    · exact Or.inr (before.trans precedes)

theorem NotAfter.trans_precedes {first second third : Trail} (le : NotAfter first second)
    (late : Precedes second third) : Precedes first third := by
  rcases le with rfl | early
  · exact late
  · exact early.trans late

end Trail

end TaggedRegex
