import TaggedRegex.Proofs.Automaton.Layout
import TaggedRegex.Proofs.Grammar.Normal

set_option autoImplicit false

/-!
The skeleton of an expression. A state with nothing but a normal epsilon edge without a tag may be
passed over; what is left of a layout are its knots. They are numbered here without an automaton,
and an expression has the same knots as its normal form.
-/

namespace TaggedRegex

namespace Quantifier

/-- The number of knots of a repetition besides those of its body. -/
def knotCount : Quantifier → Nat
  | .star => 2
  | .plus => 1
  | .opt => 1

/-- The knot at which a body ends. A body that is optional ends where the repetition ends. -/
def lastKnot (quantifier : Quantifier) (next : Nat) (tail : StateId) : StateId :=
  match quantifier with
  | .star => ⟨next + 1⟩
  | .plus => ⟨next⟩
  | .opt => tail

/-- The knot at which a repetition begins whose body begins at `first`. -/
def firstKnot (quantifier : Quantifier) (next : Nat) (first : StateId) : StateId :=
  match quantifier with
  | .star => ⟨next⟩
  | .plus => first
  | .opt => ⟨next⟩

/-- The knots of a repetition besides those of its body. -/
def knots (quantifier : Quantifier) (greed : Greed) (first tail : StateId) : List (List Arm) :=
  match quantifier with
  | .star => [Quantifier.star.headArms greed first tail, Quantifier.star.lastArms greed first tail]
  | .plus => [Quantifier.plus.lastArms greed first tail]
  | .opt => [Quantifier.opt.headArms greed first tail]

end Quantifier

namespace Regex

/-- A branch on its own needs no knot at which it is chosen. -/
def forkCount : List Regex → Nat
  | [_] => 0
  | _ => 1

mutual

/-- The number of knots of an expression; the one at which it ends is not counted. -/
def knotCount : Regex → Nat
  | .any | .lit _ | .set _ | .atEnd => 1
  | .group body => body.knotCount + 2
  | .rep quantifier _ body => body.knotCount + quantifier.knotCount
  | .alt branches => forkCount branches + knotCounts branches
  | .cat items => knotCounts items

def knotCounts : List Regex → Nat
  | [] => 0
  | regex :: rest => regex.knotCount + knotCounts rest

end

mutual

/-- The knot at which an expression begins whose knots are numbered from `next` on and that ends at
`tail`. -/
def landing (next : Nat) (tail : StateId) : Regex → StateId
  | .any | .lit _ | .set _ | .atEnd => ⟨next⟩
  | .group _ => ⟨next⟩
  | .rep quantifier _ body =>
      quantifier.firstKnot next
        (body.landing (next + quantifier.knotCount) (quantifier.lastKnot next tail))
  | .alt [branch] => branch.landing next tail
  | .alt _ => ⟨next⟩
  | .cat items => itemsLanding next tail items

def itemsLanding (next : Nat) (tail : StateId) : List Regex → StateId
  | [] => tail
  | item :: rest => item.landing next (itemsLanding (next + item.knotCount) tail rest)

end

/-- The arms over which branches are chosen whose knots are numbered from `next` on. -/
def landingArms (next : Nat) (tail : StateId) (priority : Priority) : List Regex → List Arm
  | [] => []
  | branch :: rest =>
      .epsilon (branch.landing next tail) priority ::
        landingArms (next + branch.knotCount) tail .low rest

/-- The knot at which branches are chosen, if there is a choice. -/
def forkKnots (next : Nat) (tail : StateId) : List Regex → List (List Arm)
  | [_] => []
  | branches => [landingArms (next + 1) tail .normal branches]

mutual

/-- The arms of the knots of an expression. The knots are numbered from `next` on and the groups
from `number` on, and the expression ends at the knot `tail`. -/
def knots (next number : Nat) (tail : StateId) : Regex → List (List Arm)
  | .any => [[.read .all tail]]
  | .lit c => [[.read (.single c) tail]]
  | .set ranges => [ranges.map fun range => .read range tail]
  | .atEnd => [[⟨.atEnd, tail, .normal, none⟩]]
  | .group body =>
      [.cross (body.landing (next + 2) ⟨next + 1⟩) ⟨number, .opening⟩] ::
        [.cross tail ⟨number, .closing⟩] :: body.knots (next + 2) (number + 1) ⟨next + 1⟩
  | .rep quantifier greed body =>
      quantifier.knots greed
          (body.landing (next + quantifier.knotCount) (quantifier.lastKnot next tail)) tail ++
        body.knots (next + quantifier.knotCount) number (quantifier.lastKnot next tail)
  | .alt branches =>
      forkKnots next tail branches ++
        branchesKnots (next + forkCount branches) number tail branches
  | .cat items => itemsKnots next number tail items

def branchesKnots (next number : Nat) (tail : StateId) : List Regex → List (List Arm)
  | [] => []
  | branch :: rest =>
      branch.knots next number tail ++
        branchesKnots (next + branch.knotCount) (number + branch.groupCount) tail rest

def itemsKnots (next number : Nat) (tail : StateId) : List Regex → List (List Arm)
  | [] => []
  | item :: rest =>
      item.knots next number (itemsLanding (next + item.knotCount) tail rest) ++
        itemsKnots (next + item.knotCount) (number + item.groupCount) tail rest

end

/-! ### Expressions with the same knots -/

/-- Wherever the expressions are put, they have the same knots. -/
structure Alike (first second : Regex) : Prop where
  knotCount : first.knotCount = second.knotCount
  groupCount : first.groupCount = second.groupCount
  landing : ∀ next tail, first.landing next tail = second.landing next tail
  knots : ∀ next number tail, first.knots next number tail = second.knots next number tail

namespace Alike

variable {first second third : Regex}

theorem refl (regex : Regex) : Alike regex regex :=
  ⟨rfl, rfl, fun _ _ => rfl, fun _ _ _ => rfl⟩

theorem trans (early : Alike first second) (late : Alike second third) : Alike first third :=
  ⟨early.knotCount.trans late.knotCount, early.groupCount.trans late.groupCount,
    fun next tail => (early.landing next tail).trans (late.landing next tail),
    fun next number tail => (early.knots next number tail).trans (late.knots next number tail)⟩

theorem symm (alike : Alike first second) : Alike second first :=
  ⟨alike.knotCount.symm, alike.groupCount.symm, fun next tail => (alike.landing next tail).symm,
    fun next number tail => (alike.knots next number tail).symm⟩

theorem group (alike : Alike first second) : Alike (.group first) (.group second) := by
  refine ⟨?_, ?_, fun _ _ => rfl, fun next number tail => ?_⟩
  · rw [Regex.knotCount, Regex.knotCount, alike.knotCount]
  · rw [Regex.groupCount, Regex.groupCount, alike.groupCount]
  · rw [Regex.knots, Regex.knots, alike.landing, alike.knots]

theorem rep (alike : Alike first second) (quantifier : Quantifier) (greed : Greed) :
    Alike (.rep quantifier greed first) (.rep quantifier greed second) := by
  refine ⟨?_, alike.groupCount, fun next tail => ?_, fun next number tail => ?_⟩
  · rw [Regex.knotCount, Regex.knotCount, alike.knotCount]
  · rw [Regex.landing, Regex.landing, alike.landing]
  · rw [Regex.knots, Regex.knots, alike.landing, alike.knots]

end Alike

/-! ### Sequences -/

theorem knotCounts_append (first second : List Regex) :
    knotCounts (first ++ second) = knotCounts first + knotCounts second := by
  induction first with
  | nil => exact (Nat.zero_add _).symm
  | cons regex rest ih => rw [List.cons_append, knotCounts, knotCounts, ih, Nat.add_assoc]

theorem groupCounts_append (first second : List Regex) :
    groupCounts (first ++ second) = groupCounts first + groupCounts second := by
  induction first with
  | nil => exact (Nat.zero_add _).symm
  | cons regex rest ih => rw [List.cons_append, groupCounts, groupCounts, ih, Nat.add_assoc]

theorem itemsLanding_append (first second : List Regex) (next : Nat) (tail : StateId) :
    itemsLanding next tail (first ++ second) =
      itemsLanding next (itemsLanding (next + knotCounts first) tail second) first := by
  induction first generalizing next with
  | nil => rfl
  | cons item rest ih =>
    rw [List.cons_append, itemsLanding, itemsLanding, ih, knotCounts, Nat.add_assoc]

theorem itemsKnots_append (first second : List Regex) (next number : Nat) (tail : StateId) :
    itemsKnots next number tail (first ++ second) =
      itemsKnots next number (itemsLanding (next + knotCounts first) tail second) first ++
        itemsKnots (next + knotCounts first) (number + groupCounts first) tail second := by
  induction first generalizing next number with
  | nil => rfl
  | cons item rest ih =>
    rw [List.cons_append, itemsKnots, itemsKnots, ih, itemsLanding_append, knotCounts,
      groupCounts, List.append_assoc, Nat.add_assoc, Nat.add_assoc]

/-- Sequences whose parts are alike are alike. -/
theorem Alike.append {first second others more : List Regex}
    (front : Alike (.cat first) (.cat second)) (back : Alike (.cat others) (.cat more)) :
    Alike (.cat (first ++ others)) (.cat (second ++ more)) := by
  have counts : knotCounts first = knotCounts second := front.knotCount
  have groups : groupCounts first = groupCounts second := front.groupCount
  have lands : ∀ next tail, itemsLanding next tail others = itemsLanding next tail more :=
    back.landing
  have ties : ∀ next number tail,
      itemsKnots next number tail others = itemsKnots next number tail more := back.knots
  refine ⟨?_, ?_, fun next tail => ?_, fun next number tail => ?_⟩
  · rw [Regex.knotCount, Regex.knotCount, knotCounts_append, knotCounts_append, counts]
    exact congrArg _ back.knotCount
  · rw [Regex.groupCount, Regex.groupCount, groupCounts_append, groupCounts_append, groups]
    exact congrArg _ back.groupCount
  · rw [Regex.landing, Regex.landing, itemsLanding_append, itemsLanding_append, counts, lands]
    exact front.landing _ _
  · rw [Regex.knots, Regex.knots, itemsKnots_append, itemsKnots_append, counts, groups, lands,
      ties]
    exact congrArg (· ++ _) (front.knots _ _ _)

/-- A sequence of one item is like the item. -/
theorem alike_single (item : Regex) : Alike (.cat [item]) item :=
  ⟨rfl, rfl, fun _ _ => rfl, fun _ _ _ => List.append_nil _⟩

/-- A sequence on its own is like the items that it contributes to the one around it. -/
theorem alike_pieces (regex : Regex) : Alike (.cat regex.pieces) (.cat [regex]) := by
  cases regex with
  | cat items => exact (alike_single _).symm
  | any | lit | set | group | rep | alt | atEnd => exact .refl _

theorem alike_sequence (items : List Regex) : Alike (sequence items) (.cat items) := by
  unfold sequence
  split
  · exact (alike_single _).symm
  · exact .refl _

/-! ### Alternatives -/

section

variable {first second : List Regex}

theorem knotCounts_congr (alike : List.Forall₂ Alike first second) :
    knotCounts first = knotCounts second := by
  induction alike with
  | nil => rfl
  | cons here _ ih => rw [knotCounts, knotCounts, here.knotCount, ih]

theorem groupCounts_congr (alike : List.Forall₂ Alike first second) :
    groupCounts first = groupCounts second := by
  induction alike with
  | nil => rfl
  | cons here _ ih => rw [groupCounts, groupCounts, here.groupCount, ih]

theorem landingArms_congr (alike : List.Forall₂ Alike first second) (next : Nat) (tail : StateId)
    (priority : Priority) :
    landingArms next tail priority first = landingArms next tail priority second := by
  induction alike generalizing next priority with
  | nil => rfl
  | cons here _ ih => rw [landingArms, landingArms, here.landing, here.knotCount, ih]

theorem branchesKnots_congr (alike : List.Forall₂ Alike first second) (next number : Nat)
    (tail : StateId) :
    branchesKnots next number tail first = branchesKnots next number tail second := by
  induction alike generalizing next number with
  | nil => rfl
  | cons here _ ih =>
    rw [branchesKnots, branchesKnots, here.knots, here.knotCount, here.groupCount, ih]

/-- Alternatives whose branches are alike are alike. -/
theorem Alike.alt (alike : List.Forall₂ Alike first second) :
    Alike (.alt first) (.alt second) := by
  have forks : forkCount first = forkCount second ∧
      (∀ next tail, forkKnots next tail first = forkKnots next tail second) ∧
      ∀ next tail, (Regex.alt first).landing next tail = (Regex.alt second).landing next tail := by
    cases alike with
    | nil => exact ⟨rfl, fun _ _ => rfl, fun _ _ => rfl⟩
    | cons here others =>
      cases others with
      | nil => exact ⟨rfl, fun _ _ => rfl, here.landing⟩
      | cons next rest =>
        have all := landingArms_congr (List.Forall₂.cons here (List.Forall₂.cons next rest))
        exact ⟨rfl, fun next tail => by rw [forkKnots, forkKnots, all] <;> simp, fun _ _ => rfl⟩
  obtain ⟨forkCounts, forkKnots, landings⟩ := forks
  refine ⟨?_, groupCounts_congr alike, landings, fun next number tail => ?_⟩
  · rw [Regex.knotCount, Regex.knotCount, forkCounts, knotCounts_congr alike]
  · rw [Regex.knots, Regex.knots, forkKnots, forkCounts, branchesKnots_congr alike]

theorem alike_choice (branches : List Regex) : Alike (choice branches) (.alt branches) := by
  unfold choice
  split
  · rename_i branch
    refine ⟨(Nat.zero_add _).symm, rfl, fun _ _ => rfl, fun _ _ _ => (List.append_nil _).symm⟩
  · exact .refl _

end

mutual

/-- An expression has the knots of its normal form. -/
theorem alike_norm : (regex : Regex) → Alike regex.norm regex
  | .any => .refl _
  | .lit _ => .refl _
  | .set _ => .refl _
  | .atEnd => .refl _
  | .group body => (alike_norm body).group
  | .rep quantifier greed body => (alike_norm body).rep quantifier greed
  | .alt [] => ⟨rfl, rfl, fun _ _ => rfl, fun _ _ _ => rfl⟩
  | .alt (first :: rest) =>
    (alike_choice _).trans (.alt (.cons (alike_norm first) (alike_normAll rest)))
  | .cat items => (alike_sequence _).trans (alike_normPieces items)

theorem alike_normAll : (branches : List Regex) → List.Forall₂ Alike (normAll branches) branches
  | [] => .nil
  | branch :: rest => .cons (alike_norm branch) (alike_normAll rest)

theorem alike_normPieces : (items : List Regex) → Alike (.cat (normPieces items)) (.cat items)
  | [] => .refl _
  | item :: rest =>
    have here : Alike (.cat [item.norm]) (.cat [item]) :=
      (alike_single _).trans ((alike_norm item).trans (alike_single _).symm)
    Alike.append ((alike_pieces item.norm).trans here) (alike_normPieces rest)

end

end Regex

end TaggedRegex
