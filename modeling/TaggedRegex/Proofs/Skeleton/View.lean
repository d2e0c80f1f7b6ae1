import TaggedRegex.Proofs.Skeleton.Homes

set_option autoImplicit false

/-!
A layout seen as a skeleton. States that may be passed over are looked through, and so are tags that
do not count; what is seen where an expression lies are the knots of the expression.
-/

namespace TaggedRegex

/-- A way to look at a layout: the states that stand for the knots, in the order of the knots, and
what is seen of a tag. -/
structure View where
  plan : Plan
  kept : Tag → Option Tag
  homes : List StateId

namespace View

/-- The state stands for the knot. -/
def Seats (view : View) (knot home : StateId) : Prop := view.homes[knot.index]? = some home

/-- Nothing is seen of the arm, and no other leads on from the state. -/
structure Passes (view : View) (state : StateId) (arm : Arm) : Prop where
  only : view.plan.arms state = [arm]
  label : arm.label = .epsilon
  unseen : arm.tag.bind view.kept = none

/-- What is seen at the state is the knot. -/
inductive Mirrors (view : View) (knot : StateId) : StateId → Prop
  | home {state : StateId} : view.Seats knot state → Mirrors view knot state
  | pass {state : StateId} {arm : Arm} :
      view.Passes state arm → Mirrors view knot arm.target → Mirrors view knot state

/-- An arm is seen as the other one, an arm of a knot. -/
structure Shows (view : View) (arm model : Arm) : Prop where
  label : arm.label = model.label
  priority : arm.priority = model.priority
  tag : arm.tag.bind view.kept = model.tag
  target : view.Mirrors model.target arm.target

/-- The arms of a state are seen as these arms of a knot, and the state is not passed over. -/
structure Stands (view : View) (home : StateId) (models : List Arm) : Prop where
  still : ∀ arm, ¬ view.Passes home arm
  shows : List.Forall₂ view.Shows (view.plan.arms home) models

/-- The states stand for the knots from the given one on. -/
def Occupies (view : View) : Nat → List StateId → Prop
  | _, [] => True
  | knot, home :: rest => view.Seats ⟨knot⟩ home ∧ view.Occupies (knot + 1) rest

variable {view : View}

theorem occupies_append {knot : Nat} {first second : List StateId} :
    view.Occupies knot (first ++ second) ↔
      view.Occupies knot first ∧ view.Occupies (knot + first.length) second := by
  induction first generalizing knot with
  | nil => exact (iff_of_eq (true_and _)).symm
  | cons home rest ih =>
    rw [List.cons_append, Occupies, Occupies, ih, and_assoc, List.length_cons,
      Nat.add_right_comm, Nat.add_assoc]

/-- All homes together stand for all knots. -/
theorem occupies_homes (view : View) : view.Occupies 0 view.homes := by
  have behind : ∀ before rest, view.homes = before ++ rest → view.Occupies before.length rest := by
    intro before rest whole
    induction rest generalizing before with
    | nil => trivial
    | cons home rest ih =>
      refine ⟨?_, ?_⟩
      · rw [Seats, whole, List.getElem?_append_right (Nat.le_refl _), Nat.sub_self]
        rfl
      · have next := ih (before ++ [home]) (by rw [whole, List.append_assoc]; rfl)
        rwa [List.length_append] at next
  exact behind [] view.homes rfl

namespace Stands

variable {home : StateId} {models : List Arm}

/-- A state with several arms, or with none, is not passed over. -/
theorem of_length {arms : List Arm} (leaves : view.plan.Leaves home arms)
    (several : arms.length ≠ 1) (shows : List.Forall₂ view.Shows arms models) :
    view.Stands home models := by
  refine ⟨fun arm passes => several ?_, by rw [leaves.arms]; exact shows⟩
  rw [← leaves.arms, passes.only]
  rfl

/-- Nor is one whose arms are no epsilon edges. -/
theorem of_label {arms : List Arm} (leaves : view.plan.Leaves home arms)
    (label : ∀ arm ∈ arms, arm.label ≠ .epsilon) (shows : List.Forall₂ view.Shows arms models) :
    view.Stands home models := by
  refine ⟨fun arm passes => label arm ?_ passes.label, by rw [leaves.arms]; exact shows⟩
  rw [← leaves.arms, passes.only]
  exact List.mem_singleton_self arm

/-- Nor is one with a tag that is seen. -/
theorem of_cross {target knot : StateId} {tag seen : Tag}
    (leaves : view.plan.Leaves home [.cross target tag]) (kept : view.kept tag = some seen)
    (mirrors : view.Mirrors knot target) : view.Stands home [.cross knot seen] := by
  refine ⟨fun arm passes => ?_, by rw [leaves.arms]; exact .cons ⟨rfl, rfl, kept, mirrors⟩ .nil⟩
  have only := passes.only
  rw [leaves.arms] at only
  obtain rfl : Arm.cross target tag = arm := List.singleton_injective only
  have unseen : view.kept tag = none := passes.unseen
  rw [kept] at unseen
  cases unseen

end Stands

theorem Mirrors.of_epsilon {state target knot : StateId} {priority : Priority}
    (leaves : view.plan.Leaves state [.epsilon target priority])
    (mirrors : view.Mirrors knot target) : view.Mirrors knot state :=
  .pass ⟨leaves.arms, rfl, rfl⟩ mirrors

theorem shows_epsilon {target knot : StateId} (mirrors : view.Mirrors knot target)
    (priority : Priority) :
    view.Shows (.epsilon target priority) (.epsilon knot priority) :=
  ⟨rfl, rfl, rfl, mirrors⟩

theorem shows_read {target knot : StateId} (mirrors : view.Mirrors knot target)
    (range : CharRange) : view.Shows (.read range target) (.read range knot) :=
  ⟨rfl, rfl, rfl, mirrors⟩

/-- The arms with which a repetition is entered and left. -/
theorem shows_choice {first tail firstKnot tailKnot : StateId} (enter leave : Priority)
    (enters : view.Mirrors firstKnot first) (leaves : view.Mirrors tailKnot tail) :
    List.Forall₂ view.Shows [.epsilon first enter, .epsilon tail leave]
      [.epsilon firstKnot enter, .epsilon tailKnot leave] :=
  .cons (shows_epsilon enters enter) (.cons (shows_epsilon leaves leave) .nil)

/-- The tags of groups are seen, with the numbers of the groups `shift` less. -/
def Keeps (view : View) (shift : Nat) : Prop :=
  ∀ number boundary, view.kept ⟨number + shift, boundary⟩ = some ⟨number, boundary⟩

theorem keeps_some (view : View) (all : view.kept = some) : view.Keeps 0 := by
  intro number boundary
  rw [all]
  rfl

end View

open View

namespace Plan

variable {view : View} {shift : Nat}

mutual

/-- Where an expression lies its knots are seen. -/
theorem Lies.seen (keeps : view.Keeps shift) : (regex : Regex) → {number next knot : Nat} →
    {head tail tailKnot : StateId} → view.plan.Lies (number + shift) next head tail regex →
    view.Occupies knot (regex.homes next head) → view.Mirrors tailKnot tail →
    view.Mirrors (regex.landing knot tailKnot) head ∧
      List.Forall₂ view.Stands (regex.homes next head) (regex.knots knot number tailKnot)
  | .any, _, _, _, _, _, _, lies, ⟨seat, _⟩, ends =>
    ⟨.home seat, .cons (.of_label lies (by simp [Arm.read]) (.cons (shows_read ends _) .nil)) .nil⟩
  | .lit _, _, _, _, _, _, _, lies, ⟨seat, _⟩, ends =>
    ⟨.home seat, .cons (.of_label lies (by simp [Arm.read]) (.cons (shows_read ends _) .nil)) .nil⟩
  | .set ranges, _, _, _, _, _, _, lies, ⟨seat, _⟩, ends => by
    refine ⟨.home seat, .cons (.of_label lies (by simp [Arm.read]) ?_) .nil⟩
    rw [List.forall₂_map_left_iff, List.forall₂_map_right_iff]
    exact List.forall₂_same.2 fun range _ => shows_read ends range
  | .atEnd, _, _, _, _, _, _, lies, ⟨seat, _⟩, ends =>
    ⟨.home seat, .cons (.of_label lies (by simp) (.cons ⟨rfl, rfl, rfl, ends⟩ .nil)) .nil⟩
  | .group body, number, _, _, _, _, _, ⟨opens, inside, closes⟩, ⟨seat, lastSeat, seats⟩, ends => by
    rw [Nat.add_right_comm] at inside
    obtain ⟨begins, stands⟩ := Lies.seen keeps body inside seats (.home lastSeat)
    exact ⟨.home seat, .cons (.of_cross opens (keeps number .opening) begins)
      (.cons (.of_cross closes (keeps number .closing) ends) stands)⟩
  | .rep .star greed body, _, _, _, _, _, _, ⟨enters, inside, leaves⟩, ⟨seat, lastSeat, seats⟩,
      ends => by
    obtain ⟨begins, stands⟩ := Lies.seen keeps body inside seats (.home lastSeat)
    have choice := shows_choice greed.enter greed.leave begins ends
    exact ⟨.home seat, .cons (.of_length enters (by simp [Quantifier.headArms]) choice)
      (.cons (.of_length leaves (by simp [Quantifier.lastArms]) choice) stands)⟩
  | .rep .plus greed body, _, _, _, _, _, _, ⟨enters, inside, leaves⟩, ⟨lastSeat, seats⟩, ends => by
    -- the state at which it begins is passed over, and so is the one behind the body of an option
    obtain ⟨begins, stands⟩ := Lies.seen keeps body inside seats (.home lastSeat)
    have choice := shows_choice greed.enter greed.leave begins ends
    exact ⟨.of_epsilon enters begins,
      .cons (.of_length leaves (by simp [Quantifier.lastArms]) choice) stands⟩
  | .rep .opt greed body, _, _, _, _, _, _, ⟨enters, inside, leaves⟩, ⟨seat, seats⟩, ends => by
    obtain ⟨begins, stands⟩ := Lies.seen keeps body inside seats (.of_epsilon leaves ends)
    have choice := shows_choice greed.enter greed.leave begins ends
    exact ⟨.home seat, .cons (.of_length enters (by simp [Quantifier.headArms]) choice) stands⟩
  | .alt branches, _, _, _, _, _, _, ⟨leaves, inside⟩, seats, ends => by
    rw [Regex.homes, occupies_append, Regex.length_forkHomes] at seats
    obtain ⟨arms, stands⟩ := LiesBranches.seen keeps branches .normal inside seats.2 ends
    match branches with
    | [branch] =>
      cases arms with
      | cons only _ => exact ⟨.of_epsilon leaves only.target, stands⟩
    | [] | _ :: _ :: _ =>
      exact ⟨.home seats.1.1, .cons (.of_length leaves (by simp [Regex.branchArms]) arms) stands⟩
  | .cat items, _, _, _, _, _, _, lies, seats, ends => LiesItems.seen keeps items lies seats ends

theorem LiesBranches.seen (keeps : view.Keeps shift) : (branches : List Regex) →
    {number next knot : Nat} → {tail tailKnot : StateId} → (priority : Priority) →
    view.plan.LiesBranches (number + shift) next tail branches →
    view.Occupies knot (Regex.branchesHomes next branches) → view.Mirrors tailKnot tail →
    List.Forall₂ view.Shows (Regex.branchArms next priority branches)
        (Regex.landingArms knot tailKnot priority branches) ∧
      List.Forall₂ view.Stands (Regex.branchesHomes next branches)
        (Regex.branchesKnots knot number tailKnot branches)
  | [], _, _, _, _, _, _, _, _, _ => ⟨.nil, .nil⟩
  | branch :: rest, _, _, _, _, _, priority, ⟨here, leaves, others⟩, seats, ends => by
    rw [Regex.branchesHomes, occupies_append, Regex.length_homes] at seats
    rw [Nat.add_right_comm] at others
    obtain ⟨begins, stands⟩ := Lies.seen keeps branch here seats.1 (.of_epsilon leaves ends)
    obtain ⟨arms, more⟩ := LiesBranches.seen keeps rest .low others seats.2 ends
    exact ⟨.cons (shows_epsilon begins priority) arms, List.rel_append stands more⟩

theorem LiesItems.seen (keeps : view.Keeps shift) : (items : List Regex) →
    {number next knot : Nat} → {head tail tailKnot : StateId} →
    view.plan.LiesItems (number + shift) next head tail items →
    view.Occupies knot (Regex.itemsHomes next head items) → view.Mirrors tailKnot tail →
    view.Mirrors (Regex.itemsLanding knot tailKnot items) head ∧
      List.Forall₂ view.Stands (Regex.itemsHomes next head items)
        (Regex.itemsKnots knot number tailKnot items)
  | [], _, _, _, _, _, _, lies, _, ends => ⟨.of_epsilon lies ends, .nil⟩
  | [last], _, _, _, _, _, _, lies, seats, ends => by
    rw [Regex.itemsKnots, Regex.itemsKnots, List.append_nil]
    exact Lies.seen keeps last lies seats ends
  | item :: second :: rest, _, _, _, _, _, _, ⟨here, others⟩, seats, ends => by
    rw [Regex.itemsHomes, occupies_append, Regex.length_homes] at seats
    rw [Nat.add_right_comm] at others
    obtain ⟨goesOn, more⟩ := LiesItems.seen keeps (second :: rest) others seats.2 ends
    obtain ⟨begins, stands⟩ := Lies.seen keeps item here seats.1 goesOn
    exact ⟨begins, List.rel_append stands more⟩

end

end Plan

end TaggedRegex
