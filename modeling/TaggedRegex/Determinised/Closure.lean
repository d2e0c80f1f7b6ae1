import TaggedRegex.Automaton.Basic
import TaggedRegex.Determinised.Configuration
import TaggedRegex.Fault

set_option autoImplicit false

/-!
One step of all threads at once. The threads take the step in order; the states they reach are
explored along the edges that read nothing, the normal ones before the low ones, and each state is
entered once. Crossing a tag gives the thread a fresh history, and the instructions that fill it.
-/

namespace TaggedRegex

/-- What the threads consume before they move on freely: nothing, a character, or the end of the
input. -/
inductive Step where
  | start
  | char (c : Char)
  | finish
  deriving DecidableEq

/-- A thread about to enter a state, and the tag of the edge that led there. -/
structure Arrival where
  thread : Thread
  tag : Option Tag
  deriving DecidableEq

/-- The result so far: the states not entered yet, the live threads that were found, what is done
to the histories, and the names in use. -/
structure Closure where
  unvisited : List StateId
  threads : List Thread
  instructions : List Instruction
  supply : Supply

/-- The instruction that commits the boundary of a tag. -/
def Tag.commit (tag : Tag) (history : HistoryId) : Instruction :=
  match tag.boundary with
  | .opening => .commitStart history
  | .closing => .commitEnd history

namespace Arrival

/-- The arrivals of a thread over some edges. -/
def overEdges (histories : List HistoryId) (edges : List Edge) : List Arrival :=
  edges.map fun edge => ⟨⟨edge.target, histories⟩, edge.tag⟩

/-- The arrivals over the edges of one priority. -/
def withPriority (histories : List HistoryId) (edges : List Edge) (priority : Priority) :
    List Arrival :=
  overEdges histories (edges.filter fun edge => edge.priority = priority)

/-- The arrival to deal with next, and the remaining ones: all normal ones come before any low
one. -/
def next? : List Arrival → List Arrival → Option (Arrival × List Arrival × List Arrival)
  | arrival :: normal, low => some (arrival, normal, low)
  | [], arrival :: low => some (arrival, [], low)
  | [], [] => none

theorem length_of_next? {normal low normal' low' : List Arrival} {arrival : Arrival}
    (found : next? normal low = some (arrival, normal', low')) :
    normal.length + low.length = normal'.length + low'.length + 1 := by
  unfold next? at found
  split at found
  · simp only [Option.some.injEq, Prod.mk.injEq] at found
    obtain ⟨-, rfl, rfl⟩ := found
    simp only [List.length_cons]
    omega
  · simp only [Option.some.injEq, Prod.mk.injEq] at found
    obtain ⟨-, rfl, rfl⟩ := found
    simp
  · simp at found

/-- The thread after the tag has been crossed: the history of the tag is a fresh copy of the old
one, in which the new boundary is committed. -/
def crossTag (automaton : Automaton) (supply : Supply) (arrival : Arrival) :
    Except Fault (Thread × List Instruction × Supply) :=
  match arrival.tag with
  | none => .ok (arrival.thread, [], supply)
  | some tag =>
      match automaton.slot? tag with
      | none => .error (.tagWithoutSlot tag)
      | some slot =>
          match arrival.thread.histories[slot]? with
          | none => .error (.outOfBounds slot arrival.thread.histories.length)
          | some old =>
              match supply.freshHistory with
              | .error fault => .error fault
              | .ok (fresh, supply) =>
                  .ok (⟨arrival.thread.state, arrival.thread.histories.set slot fresh⟩,
                    [.copy fresh old, .set fresh tag.offset, tag.commit fresh], supply)

end Arrival

namespace Closure

/-- The edges that are followed freely: at the end of the input, also those that wait for it. -/
def freeEdges (automaton : Automaton) (step : Step) (state : StateId) : List Edge :=
  match step with
  | .finish => (automaton.onEpsilon state ++ automaton.onEnd state).mergeSort Edge.notAfter
  | _ => automaton.onEpsilon state

/-- The states that are left when one has been entered. -/
def withoutState (entered : StateId) (states : List StateId) : List StateId :=
  states.filter fun state => state ≠ entered

theorem length_withoutState_lt (entered : StateId) (states : List StateId)
    (member : entered ∈ states) : (withoutState entered states).length < states.length :=
  List.length_filter_lt_length_iff_exists.2 ⟨entered, member, by simp⟩

/-- Enters the states at which threads arrive, and those that follow freely. A state that has been
entered is passed over. -/
def explore (automaton : Automaton) (step : Step) (normal low : List Arrival) (closure : Closure) :
    Except Fault Closure :=
  match _found : Arrival.next? normal low with
  | none => .ok closure
  | some (arrival, normal', low') =>
      if arrival.thread.state ∈ closure.unvisited then
        match arrival.crossTag automaton closure.supply with
        | .error fault => .error fault
        | .ok (thread, instructions, supply) =>
            let edges := freeEdges automaton step thread.state
            explore automaton step
              (Arrival.withPriority thread.histories edges .normal ++ normal')
              (Arrival.withPriority thread.histories edges .low ++ low')
              { unvisited := withoutState arrival.thread.state closure.unvisited
                threads :=
                  if automaton.isLive thread.state then closure.threads ++ [thread]
                  else closure.threads
                instructions := closure.instructions ++ instructions
                supply := supply }
      else explore automaton step normal' low' closure
termination_by (closure.unvisited.length, normal.length + low.length)
decreasing_by
  · exact Prod.Lex.left _ _ (length_withoutState_lt _ _ (by assumption))
  · have := Arrival.length_of_next? _found
    exact Prod.Lex.right _ (by omega)

/-- One thread takes the step, and what it reaches is explored. A character may be read over any
edge, whatever its priority. At the end of the input a thread follows the edges that wait for it,
and stays where it is if it accepts. -/
def consume (automaton : Automaton) (step : Step) (closure : Closure) (thread : Thread) :
    Except Fault Closure :=
  match step with
  | .start => explore automaton step [⟨thread, none⟩] [] closure
  | .char c =>
      explore automaton step
        (Arrival.overEdges thread.histories (automaton.onChar thread.state c)) [] closure
  | .finish =>
      let edges := automaton.onEnd thread.state
      let stay := if thread.state = automaton.accept then [⟨thread, none⟩] else []
      explore automaton step
        (stay ++ Arrival.withPriority thread.histories edges .normal)
        (Arrival.withPriority thread.histories edges .low) closure

/-- The configuration after a step, if any thread is left, with the instructions that bring its
histories up to date, and the names in use afterwards. -/
def advance (automaton : Automaton) (source : Configuration) (step : Step) (supply : Supply) :
    Except Fault (Option (Configuration × List Instruction) × Supply) :=
  let unexplored : Closure := ⟨source.key ++ automaton.targets, [], [], supply⟩
  let explored := match step with
    | .start =>
        explore automaton step (source.threads.map fun thread => ⟨thread, none⟩) [] unexplored
    | _ => source.threads.foldlM (consume automaton step) unexplored
  explored.map fun closure =>
    (if closure.threads.isEmpty then none
      else some (.ofThreads closure.threads, closure.instructions), closure.supply)

end Closure

end TaggedRegex
