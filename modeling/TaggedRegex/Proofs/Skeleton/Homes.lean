import TaggedRegex.Proofs.Automaton.Position
import TaggedRegex.Proofs.Skeleton.Knots

set_option autoImplicit false

/-!
The skeleton of an expression in a layout. Every knot has a home, a state whose arms are those of
the knot up to states that may be passed over.
-/

namespace TaggedRegex

/-! ### Homes -/

/-- The homes of the knots of a repetition that begins at `head`, besides those of its body. -/
def Quantifier.homes (quantifier : Quantifier) (next : Nat) (head : StateId) : List StateId :=
  match quantifier with
  | .star => [head, ⟨next + 1⟩]
  | .plus => [⟨next + 1⟩]
  | .opt => [head]

theorem Quantifier.length_homes (quantifier : Quantifier) (next : Nat) (head : StateId) :
    (quantifier.homes next head).length = quantifier.knotCount := by
  cases quantifier <;> rfl

namespace Regex

/-- The home of the knot at which branches are chosen, if there is a choice. -/
def forkHomes (head : StateId) : List Regex → List StateId
  | [_] => []
  | _ => [head]

theorem length_forkHomes (head : StateId) (branches : List Regex) :
    (forkHomes head branches).length = forkCount branches := by
  cases branches with
  | nil => rfl
  | cons branch rest => cases rest <;> rfl

mutual

/-- The homes of the knots of an expression that begins at `head` and otherwise lies at the states
from `next` on. -/
def homes (next : Nat) (head : StateId) : Regex → List StateId
  | .any | .lit _ | .set _ | .atEnd => [head]
  | .group body => head :: ⟨next + 1⟩ :: body.homes (next + 2) ⟨next⟩
  | .rep quantifier _ body => quantifier.homes next head ++ body.homes (next + 2) ⟨next⟩
  | .alt branches => forkHomes head branches ++ branchesHomes next branches
  | .cat items => itemsHomes next head items

def branchesHomes (next : Nat) : List Regex → List StateId
  | [] => []
  | branch :: rest =>
      branch.homes (next + 2) ⟨next⟩ ++ branchesHomes (next + (branch.breadth + 2)) rest

def itemsHomes (next : Nat) (head : StateId) : List Regex → List StateId
  | [] => []
  | [last] => last.homes next head
  | item :: second :: rest =>
      item.homes (next + 1) head ++ itemsHomes (next + (item.breadth + 1)) ⟨next⟩ (second :: rest)

end

mutual

/-- There is one home for every knot. -/
theorem length_homes : (regex : Regex) → (next : Nat) → (head : StateId) →
    (regex.homes next head).length = regex.knotCount
  | .any, _, _ => rfl
  | .lit _, _, _ => rfl
  | .set _, _, _ => rfl
  | .atEnd, _, _ => rfl
  | .group body, next, head => by
    rw [homes, List.length_cons, List.length_cons, length_homes body, knotCount]
  | .rep quantifier greed body, next, head => by
    rw [homes, List.length_append, quantifier.length_homes, length_homes body, knotCount,
      Nat.add_comm]
  | .alt branches, next, head => by
    rw [homes, List.length_append, length_forkHomes, length_branchesHomes branches, knotCount]
  | .cat items, next, head => by rw [homes, length_itemsHomes items, knotCount]

theorem length_branchesHomes : (branches : List Regex) → (next : Nat) →
    (branchesHomes next branches).length = knotCounts branches
  | [], _ => rfl
  | branch :: rest, next => by
    rw [branchesHomes, List.length_append, length_homes branch, length_branchesHomes rest,
      knotCounts]

theorem length_itemsHomes : (items : List Regex) → (next : Nat) → (head : StateId) →
    (itemsHomes next head items).length = knotCounts items
  | [], _, _ => rfl
  | [last], next, head => by
    rw [itemsHomes, length_homes last, knotCounts, knotCounts, Nat.add_zero]
  | item :: second :: rest, next, head => by
    rw [itemsHomes, List.length_append, length_homes item, length_itemsHomes (second :: rest),
      ← knotCounts]

end

/-- The states are different, and they were handed out when the predicate says. -/
structure Spread (inside : Nat → Prop) (states : List StateId) : Prop where
  distinct : states.Nodup
  inside : ∀ state ∈ states, inside state.index

theorem Spread.append {inside before after : Nat → Prop} {first second : List StateId}
    (early : Spread before first) (late : Spread after second)
    (apart : ∀ index, before index → ¬ after index)
    (fromFirst : ∀ index, before index → inside index)
    (fromSecond : ∀ index, after index → inside index) : Spread inside (first ++ second) := by
  refine ⟨List.nodup_append.2 ⟨early.distinct, late.distinct, ?_⟩, fun state member => ?_⟩
  · rintro state here _ there rfl
    exact apart _ (early.inside state here) (late.inside state there)
  · obtain here | there := List.mem_append.1 member
    · exact fromFirst _ (early.inside state here)
    · exact fromSecond _ (late.inside state there)

theorem Spread.cons {inside after : Nat → Prop} {state : StateId} {states : List StateId}
    (late : Spread after states) (apart : ¬ after state.index) (here : inside state.index)
    (fromRest : ∀ index, after index → inside index) : Spread inside (state :: states) := by
  refine ⟨List.nodup_cons.2 ⟨fun member => apart (late.inside state member), late.distinct⟩, ?_⟩
  intro other member
  obtain rfl | member := List.mem_cons.1 member
  · exact here
  · exact fromRest _ (late.inside other member)

theorem Spread.mono {inside wider : Nat → Prop} {states : List StateId}
    (spread : Spread inside states) (le : ∀ index, inside index → wider index) :
    Spread wider states :=
  ⟨spread.distinct, fun state member => le _ (spread.inside state member)⟩

theorem spread_nil (inside : Nat → Prop) : Spread inside [] :=
  ⟨List.nodup_nil, fun _ member => absurd member List.not_mem_nil⟩

theorem spread_single {inside : Nat → Prop} {state : StateId} (here : inside state.index) :
    Spread inside [state] :=
  (spread_nil fun _ => False).cons id here fun _ absent => absent.elim

mutual

/-- The homes of an expression are the state at which it begins and states of its own. -/
theorem spread_homes : (regex : Regex) → {next : Nat} → {head : StateId} → head.index < next →
    Spread (fun index => index = head.index ∨ next ≤ index ∧ index < next + regex.breadth)
      (regex.homes next head)
  | .any, _, _, _ => spread_single (Or.inl rfl)
  | .lit _, _, _, _ => spread_single (Or.inl rfl)
  | .set _, _, _, _ => spread_single (Or.inl rfl)
  | .atEnd, _, _, _ => spread_single (Or.inl rfl)
  | .group body, next, head, before => by
    rw [homes, breadth]
    exact (spread_last body next).cons (by omega) (Or.inl rfl) fun index inside => by omega
  | .rep quantifier greed body, next, head, before => by
    rw [homes, breadth]
    have last := spread_last body next
    cases quantifier with
    | star => exact last.cons (by omega) (Or.inl rfl) fun index inside => by omega
    | plus => exact last.mono fun index inside => by omega
    | opt =>
      exact (spread_inner body next).cons (by omega) (Or.inl rfl) fun index inside => by omega
  | .alt branches, next, head, before => by
    rw [homes, breadth]
    have inner := spread_branchesHomes branches next
    match branches with
    | [_] => exact inner.mono fun index inside => Or.inr inside
    | [] | _ :: _ :: _ =>
      exact inner.cons (by omega) (Or.inl rfl) fun index inside => Or.inr inside
  | .cat items, next, head, before => by
    rw [homes, breadth]
    exact spread_itemsHomes items before

/-- The homes of a body that lies between two states of its own. -/
theorem spread_inner (body : Regex) (next : Nat) :
    Spread (fun index => index = next ∨ next + 2 ≤ index ∧ index < next + 2 + body.breadth)
      (body.homes (next + 2) ⟨next⟩) :=
  spread_homes body (Nat.lt_add_of_pos_right Nat.zero_lt_two)

/-- The homes of such a body and the second of its two states. -/
theorem spread_last (body : Regex) (next : Nat) :
    Spread (fun index => next ≤ index ∧ index < next + 2 + body.breadth)
      (⟨next + 1⟩ :: body.homes (next + 2) ⟨next⟩) := by
  have own : (⟨next + 1⟩ : StateId).index = next + 1 := rfl
  exact (spread_inner body next).cons (by omega) (by omega) fun index inside => by omega

theorem spread_branchesHomes : (branches : List Regex) → (next : Nat) →
    Spread (fun index => next ≤ index ∧ index < next + branchesBreadth branches)
      (branchesHomes next branches)
  | [], _ => spread_nil _
  | branch :: rest, next => by
    rw [branchesHomes, branchesBreadth]
    apply (spread_inner branch next).append (spread_branchesHomes rest _) <;>
      intro index inside <;> omega

theorem spread_itemsHomes : (items : List Regex) → {next : Nat} → {head : StateId} →
    head.index < next →
    Spread (fun index => index = head.index ∨ next ≤ index ∧ index < next + itemsBreadth items)
      (itemsHomes next head items)
  | [], _, _, _ => spread_nil _
  | [last], _, _, before => spread_homes last before
  | item :: second :: rest, next, head, before => by
    have here := spread_homes item (Nat.lt_succ_of_lt before)
    have others : Spread (fun index => index = next ∨ next + (item.breadth + 1) ≤ index ∧
        index < next + (item.breadth + 1) + itemsBreadth (second :: rest))
        (itemsHomes (next + (item.breadth + 1)) ⟨next⟩ (second :: rest)) :=
      spread_itemsHomes (second :: rest) (Nat.lt_add_of_pos_right (Nat.succ_pos _))
    rw [itemsHomes, itemsBreadth]
    apply here.append others <;> intro index inside <;> omega

end

end Regex

end TaggedRegex
