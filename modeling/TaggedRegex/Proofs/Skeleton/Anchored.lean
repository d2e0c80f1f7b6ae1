import TaggedRegex.Proofs.Automaton.Anchored
import TaggedRegex.Proofs.Skeleton.Condensation

set_option autoImplicit false

/-!
The automaton of an expression seen as a skeleton. With all tags in view it is the skeleton of the
anchored expression; without those of group 0 a match against the whole input is the skeleton of the
expression alone.
-/

namespace TaggedRegex

namespace Regex

/-- The skeleton of an expression. Behind its knots comes the one at which it ends. -/
def skeleton (regex : Regex) : Skeleton :=
  ⟨regex.knots 0 0 ⟨regex.knotCount⟩ ++ [[]], regex.landing 0 ⟨regex.knotCount⟩, ⟨regex.knotCount⟩⟩

theorem Alike.skeleton {first second : Regex} (alike : Alike first second) :
    first.skeleton = second.skeleton := by
  rw [Regex.skeleton, Regex.skeleton, alike.knotCount, alike.knots, alike.landing]

/-- An expression that is anchored has the knots of its normal form that is anchored. -/
theorem alike_anchored (regex : Regex) (anchor : Anchor) :
    Alike (regex.norm.anchored anchor) (regex.anchored anchor) := by
  have entire : Alike (.group regex.norm) (.group regex) := (alike_norm regex).group
  cases anchor with
  | full => exact entire
  | search =>
    have single : Alike (.cat [.group regex.norm]) (.cat [.group regex]) :=
      (alike_single _).trans (entire.trans (alike_single _).symm)
    exact Alike.append (.refl (.cat [.rep .star .lazy .any]))
      (Alike.append single (.refl (.cat [.rep .star .greedy .any])))

/-- The homes in the automaton of a search, one part after the other. -/
def searchHomes (regex : Regex) : List StateId :=
  (Regex.rep .star .lazy .any).homes 4 ⟨0⟩ ++ ((Regex.group regex).homes 6 ⟨2⟩ ++
    (Regex.rep .star .greedy .any).homes (regex.breadth + 8) ⟨3⟩)

theorem length_searchHomes (regex : Regex) :
    regex.searchHomes.length = (regex.anchored .search).knotCount := by
  rw [searchHomes, List.length_append, List.length_append, length_homes, length_homes, length_homes]
  rfl

theorem spread_searchHomes (regex : Regex) : Spread (· ≠ 1) regex.searchHomes := by
  have front : Spread (fun index => index = 0 ∨ 4 ≤ index ∧ index < 4 + 2) _ :=
    (Regex.rep .star .lazy .any).spread_homes (show (⟨0⟩ : StateId).index < 4 by decide)
  have entire : Spread (fun index => index = 2 ∨ 6 ≤ index ∧ index < 6 + (regex.breadth + 2))
      _ := (Regex.group regex).spread_homes (show (⟨2⟩ : StateId).index < 6 by decide)
  have rear : Spread (fun index => index = 3 ∨ regex.breadth + 8 ≤ index ∧ _) _ :=
    (Regex.rep .star .greedy .any).spread_homes
      (show (⟨3⟩ : StateId).index < regex.breadth + 8 from Nat.lt_add_left _ (by decide))
  have behind : Spread (fun index => index = 2 ∨ index = 3 ∨ 6 ≤ index)
      ((Regex.group regex).homes 6 ⟨2⟩ ++
        (Regex.rep .star .greedy .any).homes (regex.breadth + 8) ⟨3⟩) := by
    apply entire.append rear <;> intro index inside <;> omega
  apply front.append behind <;> intro index inside <;> omega

end Regex

/-- The layout of an automaton, seen from these homes and the accepting state. -/
def Automaton.view (automaton : Automaton) (connections : List Connection)
    (kept : Tag → Option Tag) (homes : List StateId) : View :=
  ⟨automaton.plan connections, kept, homes ++ [automaton.accept]⟩

namespace Automaton.Sits

variable {automaton : Automaton} {connections : List Connection} {regex shown : Regex}
  {anchor : Anchor} {kept : Tag → Option Tag} {homes : List StateId}

/-- The homes stand for the first knots, and the accepting state for the next one. -/
theorem occupies (sits : automaton.Sits connections regex anchor) (kept : Tag → Option Tag)
    (length : homes.length = shown.knotCount) :
    (automaton.view connections kept homes).Occupies 0 homes ∧
      (automaton.view connections kept homes).Seats ⟨shown.knotCount⟩ ⟨1⟩ := by
  have all := View.occupies_homes (automaton.view connections kept homes)
  obtain ⟨own, seat, -⟩ := View.occupies_append.1 all
  rw [Nat.zero_add, length, sits.accept] at seat
  exact ⟨own, seat⟩

/-- Nothing leads on from the accepting state. -/
theorem stands_accept (sits : automaton.Sits connections regex anchor) (kept : Tag → Option Tag)
    (homes : List StateId) : (automaton.view connections kept homes).Stands ⟨1⟩ [] := by
  have leaves : armsOf connections ⟨1⟩ = [] := by
    rw [← sits.accept]
    exact sits.lays.stops
  refine ⟨fun arm passes => ?_, ?_⟩
  · have only : armsOf connections ⟨1⟩ = [arm] := passes.only
    rw [leaves] at only
    cases only
  · show List.Forall₂ _ (armsOf connections ⟨1⟩) []
    rw [leaves]
    exact .nil

/-- An automaton is seen as the skeleton of the expression whose knots have these homes. -/
theorem embodies_of_seen (sits : automaton.Sits connections regex anchor)
    (length : homes.length = shown.knotCount) (spread : Regex.Spread (· ≠ 1) homes)
    (begins : (automaton.view connections kept homes).Mirrors
      (shown.landing 0 ⟨shown.knotCount⟩) ⟨0⟩)
    (stands : List.Forall₂ (automaton.view connections kept homes).Stands homes
      (shown.knots 0 0 ⟨shown.knotCount⟩)) :
    automaton.Embodies connections (automaton.view connections kept homes) shown.skeleton := by
  refine ⟨sits.lays.draws, rfl, ?_, ?_, ?_, ?_⟩
  · show (homes ++ [automaton.accept]).Nodup
    rw [sits.accept]
    refine List.nodup_append.2 ⟨spread.distinct, List.nodup_singleton _, ?_⟩
    rintro state member _ last rfl
    obtain rfl := List.mem_singleton.1 last
    exact spread.inside _ member rfl
  · show List.Forall₂ _ (homes ++ [automaton.accept]) _
    rw [sits.accept]
    exact List.rel_append stands (.cons (sits.stands_accept kept homes) .nil)
  · rw [sits.initial]
    exact begins
  · rw [sits.accept]
    exact (sits.occupies kept length).2

/-! ### All tags in view -/

theorem embodies_full (sits : automaton.Sits connections regex .full) :
    ∃ homes, automaton.Embodies connections (automaton.view connections some homes)
      (Regex.group regex).skeleton := by
  have length := (Regex.group regex).length_homes 2 ⟨0⟩
  obtain ⟨seats, finish⟩ := sits.occupies some length
  have lies : (automaton.plan connections).Lies 0 2 ⟨0⟩ ⟨1⟩ (.group regex) := sits.lies
  obtain ⟨begins, stands⟩ :=
    Plan.Lies.seen (View.keeps_some _ rfl) _ lies seats (.home finish)
  have spread : Regex.Spread (fun index => index = 0 ∨ 2 ≤ index ∧ _) _ :=
    (Regex.group regex).spread_homes (show (⟨0⟩ : StateId).index < 2 by decide)
  exact ⟨_, sits.embodies_of_seen length (spread.mono (by intro index inside; omega)) begins stands⟩

theorem embodies_search (sits : automaton.Sits connections regex .search) :
    automaton.Embodies connections (automaton.view connections some regex.searchHomes)
      (regex.anchored .search).skeleton := by
  have length := regex.length_searchHomes
  obtain ⟨seats, finish⟩ := sits.occupies some length
  obtain ⟨front, entire, rear⟩ := sits.lies
  have keeps := (automaton.view connections some regex.searchHomes).keeps_some rfl
  have rearNumber : 0 + 0 + (regex.groupCount + 1) = regex.groupCount + 1 := by omega
  rw [← rearNumber] at rear
  rw [Regex.searchHomes, View.occupies_append, View.occupies_append, Regex.length_homes,
    Regex.length_homes] at seats
  obtain ⟨frontSeats, entireSeats, rearSeats⟩ := seats
  obtain ⟨closes, third⟩ := Plan.Lies.seen keeps _ rear rearSeats (.home finish)
  obtain ⟨opens, second⟩ := Plan.Lies.seen keeps _ entire entireSeats closes
  obtain ⟨begins, first⟩ := Plan.Lies.seen keeps _ front frontSeats opens
  rw [← List.append_nil (Regex.knots _ _ _ (.rep .star .greedy .any))] at third
  exact sits.embodies_of_seen length regex.spread_searchHomes begins
    (List.rel_append first (List.rel_append second third))

/-- With all tags in view an automaton is seen as the skeleton of the anchored expression. -/
theorem embodies (sits : automaton.Sits connections regex anchor) :
    ∃ homes, automaton.Embodies connections (automaton.view connections some homes)
      (regex.anchored anchor).skeleton := by
  cases anchor with
  | full => exact sits.embodies_full
  | search => exact ⟨_, sits.embodies_search⟩

end Automaton.Sits

/-! ### Group 0 out of view -/

/-- All tags but those of group 0, with the numbers of the groups one less. -/
def Tag.inner? (tag : Tag) : Option Tag :=
  match tag.group with
  | 0 => none
  | group + 1 => some ⟨group, tag.boundary⟩

/-- Without the tags of group 0 the automaton of a match against the whole input is seen as the
skeleton of the expression. -/
theorem Automaton.Sits.embodies_inner {automaton : Automaton} {connections : List Connection}
    {regex : Regex} (sits : automaton.Sits connections regex .full) :
    automaton.Embodies connections (automaton.view connections Tag.inner? (regex.homes 4 ⟨2⟩))
      regex.skeleton := by
  have lies : (automaton.plan connections).Lies 0 2 ⟨0⟩ ⟨1⟩ (.group regex) := sits.lies
  obtain ⟨opens, inside, closes⟩ := lies
  have length := regex.length_homes 4 ⟨2⟩
  obtain ⟨seats, finish⟩ := sits.occupies Tag.inner? length
  have unseen : ∀ {state target : StateId} {boundary : Boundary},
      (automaton.plan connections).Leaves state [.cross target ⟨0, boundary⟩] →
      (automaton.view connections Tag.inner? (regex.homes 4 ⟨2⟩)).Passes state
        (.cross target ⟨0, boundary⟩) := fun leaves => ⟨leaves.arms, rfl, rfl⟩
  have keeps : (automaton.view connections Tag.inner? (regex.homes 4 ⟨2⟩)).Keeps 1 :=
    fun _ _ => rfl
  have body : (automaton.plan connections).Lies (0 + 1) 4 ⟨2⟩ ⟨3⟩ regex := inside
  obtain ⟨begins, stands⟩ :=
    Plan.Lies.seen keeps regex body seats (.pass (unseen closes) (.home finish))
  have spread : Regex.Spread (fun index => index = 2 ∨ 4 ≤ index ∧ _) _ :=
    regex.spread_homes (show (⟨2⟩ : StateId).index < 4 by decide)
  exact sits.embodies_of_seen length (spread.mono (by intro index inside; omega))
    (.pass (unseen opens) begins) stands

end TaggedRegex
