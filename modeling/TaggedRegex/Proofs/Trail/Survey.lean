import TaggedRegex.Determinised.Closure
import TaggedRegex.Proofs.Trail.Basic

set_option autoImplicit false

/-!
Matching without histories and without caches. Every live state is held by a walker that carries its
whole trail; the order in which states are entered and passed over is that of the matcher.
-/

namespace TaggedRegex

/-- A state of the automaton and the trail that led there. -/
structure Walker where
  state : StateId
  trail : Trail
  deriving DecidableEq

namespace Walker

/-- The walker behind an edge. -/
def follow (consumed : Nat) (walker : Walker) (edge : Edge) : Walker :=
  ⟨edge.target, walker.trail ++ [⟨edge, consumed⟩]⟩

/-- The walkers behind the edges of one priority. -/
def followWith (consumed : Nat) (walker : Walker) (edges : List Edge) (priority : Priority) :
    List Walker :=
  (edges.filter fun edge => edge.priority = priority).map (walker.follow consumed)

/-- The walker to deal with next, and the remaining ones: normal ones before low ones. -/
def next? : List Walker → List Walker → Option (Walker × List Walker × List Walker)
  | walker :: normal, low => some (walker, normal, low)
  | [], walker :: low => some (walker, [], low)
  | [], [] => none

theorem length_of_next? {normal low normal' low' : List Walker} {walker : Walker}
    (found : next? normal low = some (walker, normal', low')) :
    normal.length + low.length = normal'.length + low'.length + 1 := by
  unfold next? at found
  split at found
  · simp only [Option.some.injEq, Prod.mk.injEq] at found
    obtain ⟨-, rfl, rfl⟩ := found
    simp only [List.length_cons]
    omega
  · simp only [Option.some.injEq, Prod.mk.injEq] at found
    obtain ⟨-, rfl, rfl⟩ := found
    simp
  · simp at found

end Walker

/-- The states not entered yet, and the walkers on the entered ones in the order of their
arrival. -/
structure Survey where
  unvisited : List StateId
  entered : List Walker

namespace Survey

/-- The state is entered by the walker. -/
def enter (survey : Survey) (walker : Walker) : Survey :=
  ⟨Closure.withoutState walker.state survey.unvisited, survey.entered ++ [walker]⟩

/-- Enters the states at which walkers arrive, and those that follow over the edges `free`. -/
def explore (free : StateId → List Edge) (consumed : Nat) (normal low : List Walker)
    (survey : Survey) : Survey :=
  match _found : Walker.next? normal low with
  | none => survey
  | some (walker, normal', low') =>
      if walker.state ∈ survey.unvisited then
        explore free consumed
          (walker.followWith consumed (free walker.state) .normal ++ normal')
          (walker.followWith consumed (free walker.state) .low ++ low')
          (survey.enter walker)
      else explore free consumed normal' low' survey
termination_by (survey.unvisited.length, normal.length + low.length)
decreasing_by
  · exact Prod.Lex.left _ _ (Closure.length_withoutState_lt _ _ (by assumption))
  · have := Walker.length_of_next? _found
    exact Prod.Lex.right _ (by omega)

/-- One walker takes the step, and what it reaches is explored. -/
def consume (automaton : Automaton) (step : Step) (consumed : Nat) (survey : Survey)
    (walker : Walker) : Survey :=
  let free := Closure.freeEdges automaton step
  match step with
  | .start => explore free consumed [walker] [] survey
  | .char c =>
      explore free consumed
        ((automaton.onChar walker.state c).map (walker.follow consumed)) [] survey
  | .finish =>
      let edges := automaton.onEnd walker.state
      let stay := if walker.state = automaton.accept then [walker] else []
      explore free consumed (stay ++ walker.followWith consumed edges .normal)
        (walker.followWith consumed edges .low) survey

/-- The walkers on live states, in the order of their arrival. -/
def live (automaton : Automaton) (survey : Survey) : List Walker :=
  survey.entered.filter fun walker => automaton.isLive walker.state

end Survey

namespace Walker

/-- The survey that nobody has begun. -/
def unexplored (automaton : Automaton) (walkers : List Walker) : Survey :=
  ⟨walkers.map Walker.state ++ automaton.targets, []⟩

/-- All walkers take a step, the first one first. -/
def advance (automaton : Automaton) (step : Step) (consumed : Nat) (walkers : List Walker) :
    List Walker :=
  (walkers.foldl (Survey.consume automaton step consumed) (unexplored automaton walkers)).live
    automaton

/-- The walkers before anything is read. -/
def begun (automaton : Automaton) : List Walker :=
  advance automaton .start 0 [⟨automaton.initial, []⟩]

/-- The walkers after some characters, of which `consumed` came before. -/
def afterChars (automaton : Automaton) (walkers : List Walker) (consumed : Nat) :
    List Char → List Walker
  | [] => walkers
  | c :: rest =>
      afterChars automaton (advance automaton (.char c) (consumed + 1) walkers) (consumed + 1) rest

/-- The walker that accepts once `consumed` characters, the whole input, have been read. -/
def winner? (automaton : Automaton) (walkers : List Walker) (consumed : Nat) : Option Walker :=
  (advance automaton .finish consumed walkers).find? fun walker =>
    walker.state = automaton.accept

end Walker

namespace Automaton

/-- The walker that wins on an input. -/
def winner? (automaton : Automaton) (input : List Char) : Option Walker :=
  Walker.winner? automaton (Walker.afterChars automaton (Walker.begun automaton) 0 input)
    input.length

/-- The spans of all groups on an input, if it matches. -/
def report (automaton : Automaton) (input : List Char) : Option (List (List Span)) :=
  (automaton.winner? input).map fun walker => automaton.groups.map walker.trail.spans

end Automaton

namespace Survey

/-- Every entered state was entered once and is no longer among the unvisited. -/
structure Fresh (survey : Survey) : Prop where
  distinct : (survey.entered.map Walker.state).Nodup
  apart : ∀ walker ∈ survey.entered, walker.state ∉ survey.unvisited

theorem mem_withoutState (state entered : StateId) (states : List StateId) :
    state ∈ Closure.withoutState entered states ↔ state ∈ states ∧ state ≠ entered := by
  simp [Closure.withoutState]

theorem explore_nil (free : StateId → List Edge) (consumed : Nat) (survey : Survey) :
    explore free consumed [] [] survey = survey := by
  rw [explore]
  rfl

/-- What is done with the next walker. -/
theorem explore_of_next? {normal low normal' low' : List Walker} {walker : Walker}
    (found : Walker.next? normal low = some (walker, normal', low'))
    (free : StateId → List Edge) (consumed : Nat) (survey : Survey) :
    explore free consumed normal low survey =
      if walker.state ∈ survey.unvisited then
        explore free consumed (walker.followWith consumed (free walker.state) .normal ++ normal')
          (walker.followWith consumed (free walker.state) .low ++ low') (survey.enter walker)
      else explore free consumed normal' low' survey := by
  rw [explore]
  split
  · rename_i none
    rw [found] at none
    cases none
  · rename_i next nextNormal nextLow same
    obtain ⟨rfl, rfl, rfl⟩ : walker = next ∧ normal' = nextNormal ∧ low' = nextLow := by
      simpa only [Option.some.injEq, Prod.mk.injEq] using found.symm.trans same
    rfl

theorem Fresh.enter {survey : Survey} (fresh : survey.Fresh) {walker : Walker}
    (member : walker.state ∈ survey.unvisited) : (survey.enter walker).Fresh := by
  constructor
  · show ((survey.entered ++ [walker]).map Walker.state).Nodup
    rw [List.map_append, List.nodup_append]
    refine ⟨fresh.distinct, by simp, ?_⟩
    intro state early other late same
    obtain ⟨old, oldMember, rfl⟩ := List.mem_map.1 early
    obtain rfl : other = walker.state := by simpa using late
    exact fresh.apart old oldMember (same ▸ member)
  · intro old oldMember inside
    rw [Survey.enter, mem_withoutState] at inside
    rcases List.mem_append.1 oldMember with early | late
    · exact fresh.apart old early inside.1
    · obtain rfl := List.mem_singleton.1 late
      exact inside.2 rfl

end Survey

end TaggedRegex
