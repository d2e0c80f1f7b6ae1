import TaggedRegex.Proofs.Trail.Survey

set_option autoImplicit false

/-!
The order in which states are entered, whatever it is that arrives at them. Two stacks are worked
off, the normal one first, and a state that has been entered is passed over. A plain depth-first
search has one stack; where at most one thing goes on the normal stack the two give the same order.
-/

namespace TaggedRegex

variable {α : Type}

open Closure (withoutState)

/-- The states that are left when others have been entered. -/
def remaining (state : α → StateId) (entered : List α) (unvisited : List StateId) : List StateId :=
  unvisited.filter fun other => other ∉ entered.map state

/-- What plain depth-first search enters, in this order: first what comes after a state, then what
comes beside it. States that have been entered are passed over. -/
def depthFirst (state : α → StateId) (onward : α → List α) (unvisited : List StateId) :
    List α → List α
  | [] => []
  | next :: others =>
      if state next ∈ unvisited then
        let left := withoutState (state next) unvisited
        let below := depthFirst state onward left (onward next)
        next :: (below ++ depthFirst state onward (remaining state below left) others)
      else depthFirst state onward unvisited others
termination_by nodes => (unvisited.length, nodes.length)
decreasing_by
  · exact Prod.Lex.left _ _ (Closure.length_withoutState_lt _ _ (by assumption))
  · exact Prod.Lex.left _ _ (Nat.lt_of_le_of_lt (List.length_filter_le _ _)
      (Closure.length_withoutState_lt _ _ (by assumption)))
  · exact Prod.Lex.right _ (Nat.lt_succ_self _)

/-! ### Depth-first search -/

variable {state : α → StateId} {onward : α → List α} {unvisited : List StateId} {next : α}

@[simp] theorem remaining_nil (unvisited : List StateId) :
    remaining state [] unvisited = unvisited :=
  List.filter_eq_self.2 fun _ _ => by simp

theorem remaining_cons (first : α) (rest : List α) (unvisited : List StateId) :
    remaining state (first :: rest) unvisited =
      remaining state rest (withoutState (state first) unvisited) := by
  rw [remaining, remaining, withoutState, List.filter_filter]
  apply List.filter_congr
  intro other _
  simp [Bool.and_comm]

theorem remaining_append (first second : List α) (unvisited : List StateId) :
    remaining state (first ++ second) unvisited =
      remaining state second (remaining state first unvisited) := by
  induction first generalizing unvisited with
  | nil => rw [List.nil_append, remaining_nil]
  | cons node rest ih => rw [List.cons_append, remaining_cons, remaining_cons, ih]

theorem mem_remaining {entered : List α} {other : StateId} :
    other ∈ remaining state entered unvisited ↔
      other ∈ unvisited ∧ ∀ node ∈ entered, state node ≠ other := by
  simp [remaining]

theorem depthFirst_nil (unvisited : List StateId) :
    depthFirst state onward unvisited [] = [] := by
  rw [depthFirst]

theorem depthFirst_skip (absent : state next ∉ unvisited) (others : List α) :
    depthFirst state onward unvisited (next :: others) =
      depthFirst state onward unvisited others := by
  rw [depthFirst, if_neg absent]

/-- What comes beside is searched after everything that came before. -/
theorem depthFirst_append (first second : List α) (unvisited : List StateId) :
    depthFirst state onward unvisited (first ++ second) =
      depthFirst state onward unvisited first ++ depthFirst state onward
        (remaining state (depthFirst state onward unvisited first) unvisited) second := by
  induction first generalizing unvisited with
  | nil => rw [depthFirst_nil, List.nil_append, List.nil_append, remaining_nil]
  | cons node rest ih =>
    by_cases member : state node ∈ unvisited
    · rw [List.cons_append, depthFirst, depthFirst, if_pos member, if_pos member]
      dsimp only
      rw [ih, List.cons_append, List.append_assoc, remaining_cons, remaining_append]
    · rw [List.cons_append, depthFirst_skip member, depthFirst_skip member, ih]

/-- What comes after a state may as well be put in front of what comes beside it. -/
theorem depthFirst_enter (member : state next ∈ unvisited) (others : List α) :
    depthFirst state onward unvisited (next :: others) =
      next :: depthFirst state onward (withoutState (state next) unvisited)
        (onward next ++ others) := by
  rw [depthFirst, if_pos member, depthFirst_append]

/-- What stands on entered states does not matter. -/
theorem depthFirst_of_visited {nodes : List α}
    (visited : ∀ node ∈ nodes, state node ∉ unvisited) :
    depthFirst state onward unvisited nodes = [] := by
  induction nodes with
  | nil => exact depthFirst_nil unvisited
  | cons node rest ih =>
    rw [depthFirst_skip (visited node (List.mem_cons_self ..))]
    exact ih fun other member => visited other (List.mem_cons_of_mem _ member)

/-! ### Two stacks -/

/-- Something that stands on a state, and what comes after it with each priority. -/
structure Terrain (α : Type) where
  state : α → StateId
  onward : α → Priority → List α

/-- The next one of two stacks and what is left of them. -/
def nextOf : List α → List α → Option (α × List α × List α)
  | first :: normal, low => some (first, normal, low)
  | [], first :: low => some (first, [], low)
  | [], [] => none

theorem nextOf_cases {normal low normal' low' : List α} {next : α}
    (found : nextOf normal low = some (next, normal', low')) :
    normal = next :: normal' ∧ low' = low ∨ normal = [] ∧ normal' = [] ∧ low = next :: low' := by
  unfold nextOf at found
  split at found
  · obtain ⟨rfl, rfl, rfl⟩ : _ ∧ _ ∧ _ := by
      simpa only [Option.some.injEq, Prod.mk.injEq] using found
    exact Or.inl ⟨rfl, rfl⟩
  · obtain ⟨rfl, rfl, rfl⟩ : _ ∧ _ ∧ _ := by
      simpa only [Option.some.injEq, Prod.mk.injEq] using found
    exact Or.inr ⟨rfl, rfl, rfl⟩
  · cases found

theorem append_eq_of_nextOf {normal low normal' low' : List α} {next : α}
    (found : nextOf normal low = some (next, normal', low')) :
    normal ++ low = next :: (normal' ++ low') := by
  rcases nextOf_cases found with ⟨rfl, rfl⟩ | ⟨rfl, rfl, rfl⟩ <;> rfl

theorem append_eq_nil_of_nextOf {normal low : List α} (none : nextOf normal low = none) :
    normal = [] ∧ low = [] := by
  unfold nextOf at none
  split at none
  · cases none
  · cases none
  · exact ⟨rfl, rfl⟩

namespace Terrain

variable (terrain : Terrain α)

/-- What is entered, in this order, when two stacks are worked off. -/
def tour (normal low : List α) (unvisited : List StateId) : List α :=
  match _found : nextOf normal low with
  | none => []
  | some (next, normal', low') =>
      if terrain.state next ∈ unvisited then
        next :: tour (terrain.onward next .normal ++ normal') (terrain.onward next .low ++ low')
          (withoutState (terrain.state next) unvisited)
      else tour normal' low' unvisited
termination_by (unvisited.length, (normal ++ low).length)
decreasing_by
  · exact Prod.Lex.left _ _ (Closure.length_withoutState_lt _ _ (by assumption))
  · rw [append_eq_of_nextOf _found]
    exact Prod.Lex.right _ (Nat.lt_succ_self _)

/-- Several pairs of stacks are worked off one after the other. -/
def tours : List (List α × List α) → List StateId → List α
  | [], _ => []
  | (normal, low) :: rest, unvisited =>
      let first := terrain.tour normal low unvisited
      first ++ tours rest (remaining terrain.state first unvisited)

variable {terrain} {normal low normal' low' : List α}

/-! ### One thing after the other -/

theorem tour_nil (unvisited : List StateId) : terrain.tour [] [] unvisited = [] := by
  rw [tour]
  rfl

theorem tour_of_nextOf (found : nextOf normal low = some (next, normal', low'))
    (unvisited : List StateId) :
    terrain.tour normal low unvisited =
      if terrain.state next ∈ unvisited then
        next :: terrain.tour (terrain.onward next .normal ++ normal')
          (terrain.onward next .low ++ low') (withoutState (terrain.state next) unvisited)
      else terrain.tour normal' low' unvisited := by
  rw [tour]
  split
  · rename_i none
    rw [found] at none
    cases none
  · rename_i other otherNormal otherLow same
    obtain ⟨rfl, rfl, rfl⟩ : next = other ∧ normal' = otherNormal ∧ low' = otherLow := by
      simpa only [Option.some.injEq, Prod.mk.injEq] using found.symm.trans same
    rfl

/-! ### No state is entered twice -/

theorem mem_unvisited_of_mem_tour {node : α} (member : node ∈ terrain.tour normal low unvisited) :
    terrain.state node ∈ unvisited := by
  fun_induction tour terrain normal low unvisited with
  | case1 => cases member
  | case2 normal low unvisited next normal' low' found inside ih =>
    rcases List.mem_cons.1 member with rfl | later
    · exact inside
    · exact ((Survey.mem_withoutState ..).1 (ih later)).1
  | case3 normal low unvisited next normal' low' found inside ih => exact ih member

theorem nodup_tour (normal low : List α) (unvisited : List StateId) :
    ((terrain.tour normal low unvisited).map terrain.state).Nodup := by
  fun_induction tour terrain normal low unvisited with
  | case1 => exact List.nodup_nil
  | case2 normal low unvisited next normal' low' found inside ih =>
    rw [List.map_cons, List.nodup_cons]
    refine ⟨?_, ih⟩
    intro again
    obtain ⟨node, member, same⟩ := List.mem_map.1 again
    exact ((Survey.mem_withoutState ..).1 (mem_unvisited_of_mem_tour member)).2 same
  | case3 normal low unvisited next normal' low' found inside ih => exact ih

theorem mem_unvisited_of_mem_tours {pairs : List (List α × List α)} {node : α}
    (member : node ∈ terrain.tours pairs unvisited) : terrain.state node ∈ unvisited := by
  induction pairs generalizing unvisited with
  | nil => cases member
  | cons both rest ih =>
    rcases List.mem_append.1 member with first | later
    · exact mem_unvisited_of_mem_tour first
    · exact (mem_remaining.1 (ih later)).1

theorem nodup_tours (pairs : List (List α × List α)) (unvisited : List StateId) :
    ((terrain.tours pairs unvisited).map terrain.state).Nodup := by
  induction pairs generalizing unvisited with
  | nil => exact List.nodup_nil
  | cons both rest ih =>
    rw [tours, List.map_append, List.nodup_append]
    refine ⟨nodup_tour both.1 both.2 unvisited, ih _, ?_⟩
    intro state early other late same
    obtain ⟨first, firstMember, rfl⟩ := List.mem_map.1 early
    obtain ⟨second, secondMember, rfl⟩ := List.mem_map.1 late
    exact (mem_remaining.1 (mem_unvisited_of_mem_tours secondMember)).2 first firstMember same

/-! ### Everything comes from somewhere -/

/-- It stood there from the beginning, or comes after something that has been entered. -/
def ComesFrom (terrain : Terrain α) (begins : α → Prop) (entered : List α) (node : α) : Prop :=
  begins node ∨ ∃ parent ∈ entered, ∃ priority, node ∈ terrain.onward parent priority

/-- What is entered one after the other, each from where something was before. -/
inductive Grown (terrain : Terrain α) (begins : α → Prop) : List α → Prop
  | nil : Grown terrain begins []
  | enter {entered : List α} {node : α} : Grown terrain begins entered →
      terrain.ComesFrom begins entered node → Grown terrain begins (entered ++ [node])

variable {begins : α → Prop}

theorem ComesFrom.mono {entered later : List α} {node : α}
    (comes : terrain.ComesFrom begins entered node) (subset : ∀ old ∈ entered, old ∈ later) :
    terrain.ComesFrom begins later node := by
  rcases comes with first | ⟨parent, member, onward⟩
  · exact Or.inl first
  · exact Or.inr ⟨parent, subset parent member, onward⟩

/-- What holds of everything that waits and of everything that comes next holds of both stacks. -/
theorem forall_mem_following {holds : α → Prop} (waiting : ∀ node ∈ normal' ++ low', holds node)
    (following : ∀ priority, ∀ node ∈ terrain.onward next priority, holds node) :
    ∀ node ∈ (terrain.onward next .normal ++ normal') ++ (terrain.onward next .low ++ low'),
      holds node := by
  intro node member
  simp only [List.mem_append] at member waiting
  rcases member with (after | waits) | (after | waits)
  · exact following .normal node after
  · exact waiting node (Or.inl waits)
  · exact following .low node after
  · exact waiting node (Or.inr waits)

theorem Grown.tour {entered : List α} (grown : terrain.Grown begins entered)
    (come : ∀ node ∈ normal ++ low, terrain.ComesFrom begins entered node) :
    terrain.Grown begins (entered ++ terrain.tour normal low unvisited) := by
  fun_induction Terrain.tour terrain normal low unvisited generalizing entered with
  | case1 =>
    rw [List.append_nil]
    exact grown
  | case2 normal low unvisited next normal' low' found inside ih =>
    rw [append_eq_of_nextOf found] at come
    rw [List.append_cons]
    apply ih (grown.enter (come next (List.mem_cons_self ..)))
    apply forall_mem_following
    · exact fun node member => (come node (List.mem_cons_of_mem next member)).mono
        fun old inside => List.mem_append_left _ inside
    · exact fun priority node member => Or.inr ⟨next, by simp, priority, member⟩
  | case3 normal low unvisited next normal' low' found inside ih =>
    rw [append_eq_of_nextOf found] at come
    exact ih grown fun node member => come node (List.mem_cons_of_mem next member)

theorem Grown.tours {pairs : List (List α × List α)} {entered : List α}
    (grown : terrain.Grown begins entered)
    (begin : ∀ both ∈ pairs, ∀ node ∈ both.1 ++ both.2, begins node) :
    terrain.Grown begins (entered ++ terrain.tours pairs unvisited) := by
  induction pairs generalizing entered unvisited with
  | nil =>
    rw [Terrain.tours, List.append_nil]
    exact grown
  | cons both rest ih =>
    rw [Terrain.tours, ← List.append_assoc]
    apply ih
    · exact grown.tour fun node member => Or.inl (begin both (List.mem_cons_self ..) node member)
    · exact fun other member => begin other (List.mem_cons_of_mem both member)

/-! ### What does not matter for a tour -/

theorem nextOf_map {β : Type} (f : α → β) {normal low normal' low' : List α} {next : α}
    (found : nextOf normal low = some (next, normal', low')) :
    nextOf (normal.map f) (low.map f) = some (f next, normal'.map f, low'.map f) := by
  rcases nextOf_cases found with ⟨rfl, rfl⟩ | ⟨rfl, rfl, rfl⟩ <;> rfl

/-- A terrain that is laid over another one by a map. -/
structure Maps {β : Type} (terrain : Terrain α) (other : Terrain β) (f : α → β) : Prop where
  state : ∀ node, other.state (f node) = terrain.state node
  onward : ∀ node priority, other.onward (f node) priority = (terrain.onward node priority).map f

variable {β : Type} {other : Terrain β} {f : α → β}

theorem Maps.remaining (maps : Maps terrain other f) (entered : List α)
    (unvisited : List StateId) :
    remaining other.state (entered.map f) unvisited =
      remaining terrain.state entered unvisited := by
  have same : other.state ∘ f = terrain.state := funext maps.state
  rw [TaggedRegex.remaining, List.map_map, same]
  rfl

/-- Only the states decide which way a tour takes. -/
theorem Maps.tour (maps : Maps terrain other f) (normal low : List α) (unvisited : List StateId) :
    other.tour (normal.map f) (low.map f) unvisited =
      (terrain.tour normal low unvisited).map f := by
  fun_induction Terrain.tour terrain normal low unvisited with
  | case1 normal low unvisited found =>
    obtain ⟨rfl, rfl⟩ := append_eq_nil_of_nextOf found
    exact tour_nil unvisited
  | case2 normal low unvisited next normal' low' found member ih =>
    rw [tour_of_nextOf (nextOf_map f found), maps.state, if_pos member, maps.onward, maps.onward,
      ← List.map_append, ← List.map_append, ih, List.map_cons]
  | case3 normal low unvisited next normal' low' found member ih =>
    rw [tour_of_nextOf (nextOf_map f found), maps.state, if_neg member, ih]

theorem Maps.tours (maps : Maps terrain other f) (pairs : List (List α × List α))
    (unvisited : List StateId) :
    other.tours (pairs.map fun both => (both.1.map f, both.2.map f)) unvisited =
      (terrain.tours pairs unvisited).map f := by
  induction pairs generalizing unvisited with
  | nil => rfl
  | cons both rest ih =>
    rw [List.map_cons, Terrain.tours, Terrain.tours, maps.tour, maps.remaining, ih, List.map_append]

/-! ### Two stacks like one -/

theorem tour_of_visited {waiting : List α}
    (visited : ∀ node ∈ waiting, terrain.state node ∉ unvisited) :
    terrain.tour waiting low unvisited = terrain.tour [] low unvisited := by
  induction waiting with
  | nil => rfl
  | cons node rest ih =>
    rw [tour_of_nextOf rfl, if_neg (visited node (List.mem_cons_self ..))]
    exact ih fun other member => visited other (List.mem_cons_of_mem _ member)

/-- What stands on entered states does not matter at the bottom of the normal stack. -/
theorem tour_append_visited (normal : List α) {waiting low : List α} {unvisited : List StateId}
    (visited : ∀ node ∈ waiting, terrain.state node ∉ unvisited) :
    terrain.tour (normal ++ waiting) low unvisited = terrain.tour normal low unvisited := by
  fun_induction tour terrain normal low unvisited with
  | case1 normal low unvisited found =>
    obtain ⟨rfl, rfl⟩ := append_eq_nil_of_nextOf found
    rw [List.nil_append, tour_of_visited visited, tour_nil]
  | case2 normal low unvisited next normal' low' found member ih =>
    have still : ∀ node ∈ waiting, terrain.state node ∉
        withoutState (terrain.state next) unvisited :=
      fun node inside again => visited node inside ((Survey.mem_withoutState ..).1 again).1
    rcases nextOf_cases found with ⟨rfl, rfl⟩ | ⟨rfl, rfl, rfl⟩
    · rw [List.cons_append, tour_of_nextOf rfl, if_pos member, ← List.append_assoc, ih still]
    · rw [List.nil_append, tour_of_visited visited, tour_of_nextOf rfl, if_pos member]
  | case3 normal low unvisited next normal' low' found member ih =>
    rcases nextOf_cases found with ⟨rfl, rfl⟩ | ⟨rfl, rfl, rfl⟩
    · rw [List.cons_append, tour_of_nextOf rfl, if_neg member, ih visited]
    · rw [List.nil_append, tour_of_visited visited, tour_of_nextOf rfl, if_neg member]

/-- At most one thing comes after another with normal priority; `onward` gives it first. -/
def Narrow (terrain : Terrain α) (onward : α → List α) : Prop :=
  ∀ node, (terrain.onward node .normal).length ≤ 1 ∧
    terrain.onward node .normal ++ terrain.onward node .low = onward node

/-- With at most one thing on the normal stack the two stacks behave like one. -/
theorem tour_eq_depthFirst (narrow : terrain.Narrow onward) (few : normal.length ≤ 1) :
    terrain.tour normal low unvisited =
      depthFirst terrain.state onward unvisited (normal ++ low) := by
  fun_induction tour terrain normal low unvisited with
  | case1 normal low unvisited found =>
    obtain ⟨rfl, rfl⟩ := append_eq_nil_of_nextOf found
    exact (depthFirst_nil unvisited).symm
  | case2 normal low unvisited next normal' low' found member ih =>
    -- Nothing waits with normal priority, so the low edges are not overtaken.
    have done : normal' = [] := by
      rcases nextOf_cases found with ⟨rfl, rfl⟩ | ⟨rfl, rfl, rfl⟩
      · simpa using few
      · rfl
    subst done
    rw [List.append_nil] at ih ⊢
    rw [append_eq_of_nextOf found, depthFirst_enter member, List.nil_append,
      ← (narrow next).2, List.append_assoc, ih (narrow next).1]
  | case3 normal low unvisited next normal' low' found member ih =>
    rw [append_eq_of_nextOf found, depthFirst_skip member]
    apply ih
    rcases nextOf_cases found with ⟨rfl, rfl⟩ | ⟨rfl, rfl, rfl⟩
    · exact Nat.le_of_succ_le few
    · exact Nat.zero_le 1

/-- Of several things on one state only the first one gets in. -/
theorem tour_eq_depthFirst_of_target (narrow : terrain.Narrow onward) {nodes : List α}
    {target : StateId} (same : ∀ node ∈ nodes, terrain.state node = target) :
    terrain.tour nodes [] unvisited = depthFirst terrain.state onward unvisited nodes := by
  cases nodes with
  | nil => rw [tour_nil, depthFirst_nil]
  | cons node rest =>
    by_cases member : terrain.state node ∈ unvisited
    · have visited : ∀ other ∈ rest,
          terrain.state other ∉ withoutState (terrain.state node) unvisited := by
        intro other otherMember inside
        apply ((Survey.mem_withoutState ..).1 inside).2
        rw [same node (List.mem_cons_self ..), same other (List.mem_cons_of_mem _ otherMember)]
      have settled : ∀ entered : List α, ∀ other ∈ rest, terrain.state other ∉
          remaining terrain.state entered (withoutState (terrain.state node) unvisited) :=
        fun entered other otherMember inside => visited other otherMember (mem_remaining.1 inside).1
      rw [tour_of_nextOf rfl, if_pos member, tour_append_visited _ visited, List.append_nil,
        tour_eq_depthFirst narrow (narrow node).1, (narrow node).2, depthFirst_enter member,
        depthFirst_append, depthFirst_of_visited (settled _), List.append_nil]
    · have visited : ∀ other ∈ node :: rest, terrain.state other ∉ unvisited := by
        intro other otherMember
        rw [same other otherMember, ← same node (List.mem_cons_self ..)]
        exact member
      rw [tour_of_visited visited, tour_nil, depthFirst_of_visited visited]

/-- Stacks that are searched depth-first one by one are searched depth-first as a whole. -/
theorem tours_eq_depthFirst {β : Type} {items : List β} {fork : β → List α × List α}
    {begin : β → List α} (each : ∀ item ∈ items, ∀ unvisited,
      terrain.tour (fork item).1 (fork item).2 unvisited =
        depthFirst terrain.state onward unvisited (begin item)) :
    terrain.tours (items.map fork) unvisited =
      depthFirst terrain.state onward unvisited (items.flatMap begin) := by
  induction items generalizing unvisited with
  | nil => exact (depthFirst_nil unvisited).symm
  | cons first rest ih =>
    rw [List.map_cons, tours, List.flatMap_cons, depthFirst_append,
      each first (List.mem_cons_self ..),
      ih fun item member => each item (List.mem_cons_of_mem _ member)]

end Terrain

end TaggedRegex
