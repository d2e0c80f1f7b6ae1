import TaggedRegex.Proofs.Automaton.Tagging
import TaggedRegex.Proofs.Trail.Descent

set_option autoImplicit false

/-!
Runs, and the least of them. Between two characters a run enters no state twice; in an orderly
automaton the walker that wins has followed the run that comes first when runs are compared edge by
edge.
-/

namespace TaggedRegex

namespace Automaton

/-- A run up to a state that it reaches after some characters, none of them lying ahead: a path of
epsilon edges from the initial state, then for every character an edge that reads it and another
path of epsilon edges. The states of each path, its beginning included, are different. -/
inductive Arrives (automaton : Automaton) : List Char → Trail → StateId → Prop
  | start {glide : Trail} {state : StateId} :
      Glides automaton.onEpsilon 0 automaton.initial glide state →
      (automaton.initial :: glide.entered).Nodup →
      Arrives automaton [] glide state
  | read {input : List Char} {trail glide : Trail} {source target : StateId} {c : Char}
      {edge : Edge} :
      Arrives automaton input trail source → edge ∈ automaton.onChar source c →
      Glides automaton.onEpsilon (input.length + 1) edge.target glide target →
      (edge.target :: glide.entered).Nodup →
      Arrives automaton (input ++ [c]) (trail ++ ⟨edge, input.length + 1⟩ :: glide) target

/-- The rest of a run once the whole input, `consumed` characters, has been read: nothing on the
accepting state, and otherwise an edge for the end of the input and then a path to the accepting
state over epsilon edges and edges for the end of the input. -/
inductive Ends (automaton : Automaton) (consumed : Nat) : StateId → Trail → Prop
  | accepting : Ends automaton consumed automaton.accept []
  | atEnd {state : StateId} {edge : Edge} {glide : Trail} :
      state ≠ automaton.accept → edge ∈ automaton.onEnd state →
      Glides (fun other => automaton.onEpsilon other ++ automaton.onEnd other) consumed edge.target
        glide automaton.accept →
      (edge.target :: glide.entered).Nodup →
      Ends automaton consumed state (⟨edge, consumed⟩ :: glide)

/-- The trail is that of a run over the whole input. -/
def IsRun (automaton : Automaton) (input : List Char) (run : Trail) : Prop :=
  ∃ before last state, run = before ++ last ∧ automaton.Arrives input before state ∧
    automaton.Ends input.length state last

/-- Every state has at most one normal edge to follow freely, an edge for a character leads to one
state only, live states have no epsilon edges, and nothing leads on from the accepting state. -/
structure Orderly (automaton : Automaton) : Prop where
  narrow : ∀ step state, Survey.Narrow (Closure.freeEdges automaton step state)
  narrowEnd : ∀ state, Survey.Narrow (automaton.onEnd state)
  charsSorted : ∀ state c, (automaton.onChar state c).Pairwise Edge.Before
  charsTarget : ∀ state c, ∃ target, ∀ edge ∈ automaton.onChar state c, edge.target = target
  quiet : ∀ state, automaton.isLive state = true → automaton.onEpsilon state = []
  acceptStops : automaton.onEnd automaton.accept = []

variable {automaton : Automaton}

theorem Arrives.of_nil {trail : Trail} {state : StateId}
    (arrives : automaton.Arrives [] trail state) :
    Glides automaton.onEpsilon 0 automaton.initial trail state ∧
      (automaton.initial :: trail.entered).Nodup := by
  generalize empty : [] = input at arrives
  cases arrives with
  | start glides simple => exact ⟨glides, simple⟩
  | read _ _ _ _ => simp at empty

theorem Arrives.of_concat {input : List Char} {c : Char} {trail : Trail} {target : StateId}
    (arrives : automaton.Arrives (input ++ [c]) trail target) :
    ∃ before source edge glide, automaton.Arrives input before source ∧
      edge ∈ automaton.onChar source c ∧
      Glides automaton.onEpsilon (input.length + 1) edge.target glide target ∧
      (edge.target :: glide.entered).Nodup ∧
      trail = before ++ ⟨edge, input.length + 1⟩ :: glide := by
  generalize longer : input ++ [c] = whole at arrives
  cases arrives with
  | start _ _ => simp at longer
  | @read earlier before glide source _ last edge early edgeMember glides simple =>
    obtain ⟨rfl, rfl⟩ : input = earlier ∧ c = last := by simpa using longer
    exact ⟨before, source, edge, glide, early, edgeMember, glides, simple, rfl⟩

theorem isLive_accept (automaton : Automaton) : automaton.isLive automaton.accept = true := by
  simp [isLive]

theorem isLive_of_row {state : StateId} {row : Row} (member : row ∈ automaton.rows)
    (source : row.source = state) (label : row.label ≠ .epsilon) :
    automaton.isLive state = true := by
  rw [isLive, Bool.or_eq_true]
  right
  rw [List.any_eq_true]
  exact ⟨row, member, decide_eq_true ⟨source, label⟩⟩

theorem isLive_of_mem_onChar {state : StateId} {c : Char} {edge : Edge}
    (member : edge ∈ automaton.onChar state c) : automaton.isLive state = true := by
  rw [onChar, List.mem_mergeSort, List.mem_flatMap] at member
  rcases member with ⟨row, rowMember, -⟩
  rw [List.mem_filter, decide_eq_true_eq] at rowMember
  apply isLive_of_row rowMember.1 rowMember.2.1
  intro epsilon
  rw [epsilon] at rowMember
  cases rowMember.2.2

theorem isLive_of_mem_onEnd {state : StateId} {edge : Edge}
    (member : edge ∈ automaton.onEnd state) : automaton.isLive state = true := by
  rw [onEnd, edgesAt] at member
  split at member
  · rename_i row found
    have fits := List.find?_some found
    rw [decide_eq_true_eq] at fits
    apply isLive_of_row (List.mem_of_find?_eq_some found) fits.1
    rw [fits.2]
    intro same
    cases same
  · cases member

end Automaton

namespace Walker

variable {automaton : Automaton}

/-- Where a walker arrives when it takes a step. -/
def arrivals (automaton : Automaton) (step : Step) (consumed : Nat) (walker : Walker) :
    List Walker :=
  match step with
  | .start => [walker]
  | .char c => (automaton.onChar walker.state c).map (walker.follow consumed)
  | .finish =>
      (if walker.state = automaton.accept then [walker] else []) ++
        (automaton.onEnd walker.state).map (walker.follow consumed)

theorem consume_eq_descend (orderly : automaton.Orderly) (step : Step) (consumed : Nat)
    (survey : Survey) (walker : Walker) :
    survey.consume automaton step consumed walker =
      Survey.descend (Closure.freeEdges automaton step) consumed
        (walker.arrivals automaton step consumed) survey := by
  cases step with
  | start => exact Survey.explore_eq_descend (orderly.narrow .start) (Nat.le_refl 1)
  | char c =>
    rcases orderly.charsTarget walker.state c with ⟨target, same⟩
    apply Survey.explore_eq_descend_of_target (orderly.narrow (.char c))
    · intro other member
      obtain ⟨edge, edgeMember, rfl⟩ := List.mem_map.1 member
      exact same edge edgeMember
  | finish =>
    have few : ((if walker.state = automaton.accept then [walker] else []) ++
        walker.followWith consumed (automaton.onEnd walker.state) .normal).length ≤ 1 := by
      by_cases accepting : walker.state = automaton.accept
      · rw [if_pos accepting, accepting, orderly.acceptStops]
        exact Nat.le_refl 1
      · rw [if_neg accepting, List.nil_append, followWith, List.length_map]
        exact (orderly.narrowEnd walker.state).1
    show Survey.explore _ consumed _
      (walker.followWith consumed (automaton.onEnd walker.state) .low) survey = _
    rw [Survey.explore_eq_descend (orderly.narrow .finish) few, List.append_assoc,
      (orderly.narrowEnd walker.state).follow]
    rfl

/-- A step of an orderly automaton is one descent from everywhere the walkers arrive. -/
theorem advance_eq (orderly : automaton.Orderly) (step : Step) (consumed : Nat)
    (walkers : List Walker) :
    advance automaton step consumed walkers =
      (Survey.descend (Closure.freeEdges automaton step) consumed
        (walkers.flatMap (arrivals automaton step consumed))
        (unexplored automaton walkers)).live automaton := by
  have folded : ∀ survey, walkers.foldl (Survey.consume automaton step consumed) survey =
      Survey.descend (Closure.freeEdges automaton step) consumed
        (walkers.flatMap (arrivals automaton step consumed)) survey := by
    intro survey
    induction walkers generalizing survey with
    | nil => exact (Survey.descend_nil survey).symm
    | cons walker rest ih =>
      rw [List.foldl_cons, ih, List.flatMap_cons, Survey.descend_append,
        consume_eq_descend orderly]
  rw [advance, folded]

theorem fresh_unexplored (automaton : Automaton) (walkers : List Walker) :
    (unexplored automaton walkers).Fresh :=
  ⟨List.nodup_nil, fun _ member => absurd member List.not_mem_nil⟩

/-- The arrivals of sorted walkers are sorted. -/
theorem sorted_arrivals (orderly : automaton.Orderly) (step : Step) (consumed : Nat)
    {walkers : List Walker} (sorted : Survey.Sorted walkers) :
    Survey.Sorted (walkers.flatMap (arrivals automaton step consumed)) := by
  have within : ∀ walker, Survey.Sorted (arrivals automaton step consumed walker) := by
    intro walker
    cases step with
    | start => exact List.pairwise_singleton _ _
    | char c => exact Survey.sorted_follow walker (orderly.charsSorted walker.state c)
    | finish =>
      by_cases accepting : walker.state = automaton.accept
      · rw [arrivals, if_pos accepting, accepting, orderly.acceptStops]
        exact List.pairwise_singleton _ _
      · rw [arrivals, if_neg accepting, List.nil_append]
        exact Survey.sorted_follow walker (orderly.narrowEnd walker.state).2
  have continues : ∀ walker, ∀ arrival ∈ arrivals automaton step consumed walker, ∃ rest,
      arrival.trail = walker.trail ++ rest := by
    intro walker arrival member
    cases step with
    | start =>
      rw [List.mem_singleton.1 member]
      exact ⟨[], (List.append_nil _).symm⟩
    | char c =>
      obtain ⟨edge, -, rfl⟩ := List.mem_map.1 member
      exact ⟨_, rfl⟩
    | finish =>
      rcases List.mem_append.1 member with staying | crossing
      · split at staying
        · rw [List.mem_singleton.1 staying]
          exact ⟨[], (List.append_nil _).symm⟩
        · cases staying
      · obtain ⟨edge, -, rfl⟩ := List.mem_map.1 crossing
        exact ⟨_, rfl⟩
  rw [Survey.Sorted, List.pairwise_flatMap]
  refine ⟨fun walker _ => within walker, sorted.imp ?_⟩
  intro first second before arrival member other otherMember
  rcases continues first arrival member with ⟨rest, same⟩
  rcases continues second other otherMember with ⟨otherRest, otherSame⟩
  rw [same, otherSame]
  exact before.append rest otherRest

end Walker

end TaggedRegex
