import TaggedRegex.Capture.Tag
import TaggedRegex.Determinised.Transition
import TaggedRegex.Text.Quoted

set_option autoImplicit false

/-!
The ways in which a caller can break a rule of the library, with the message for each of them, and
the constructors that check such a rule.
-/

namespace TaggedRegex

inductive Fault where
  /-- The bounds of a range are in the wrong order. -/
  | invertedRange (lo hi : Char)
  | statesExhausted
  | historiesExhausted
  | secondInitialState
  | secondAcceptingState
  | groupDeclaredTwice (number : Nat)
  /-- A group can only lie inside a group with a smaller number. -/
  | groupNesting (number parent : Nat)
  | noInitialState
  | noAcceptingState
  /-- The numbers of the declared groups leave a gap. -/
  | groupsNotDense
  | undeclaredGroup (tag : Tag)
  | tagWithoutSlot (tag : Tag)
  | outOfBounds (index size : Nat)
  | readUninitialised (history : HistoryId)
  | writtenUninitialised (history : HistoryId)
  | commitWithoutValue (history : HistoryId)
  | unregisteredState (index : Nat)
  | overlap (transition : Transition)
  | noEntireMatch
  deriving DecidableEq

namespace Fault

def message : Fault → String
  | .invertedRange lo hi =>
      "Inverted input range " ++ Text.quoteChar lo ++ "-" ++ Text.quoteChar hi
  | .statesExhausted => "Ran out of State IDs"
  | .historiesExhausted => "Ran out of HistoryId IDs"
  | .secondInitialState => "TNFA initial state set twice"
  | .secondAcceptingState => "TNFA accepting state set twice"
  | .groupDeclaredTwice number => "Capture group " ++ toString number ++ " declared twice"
  | .groupNesting number parent =>
      "Capture group " ++ toString number ++ " cannot be nested in group " ++ toString parent
  | .noInitialState => "TNFA has no initial state"
  | .noAcceptingState => "TNFA has no accepting state"
  | .groupsNotDense => "Capture groups are not numbered densely from 0"
  | .undeclaredGroup tag => "Transition tagged " ++ tag.text ++ " for an undeclared group"
  | .tagWithoutSlot tag => "Tag " ++ tag.text ++ " has no slot in the TNFA"
  | .outOfBounds index size =>
      "index out of bounds: the len is " ++ toString size ++ " but the index is " ++ toString index
  | .readUninitialised history => "History " ++ history.text ++ " read before initialization"
  | .writtenUninitialised history => "History " ++ history.text ++ " written before initialization"
  | .commitWithoutValue history => "Committing history " ++ history.text ++ " with no value"
  | .unregisteredState index => "DFA state " ++ toString index ++ " was never registered"
  | .overlap transition =>
      "Transition " ++ transition.text ++ " overlaps one already compiled"
  | .noEntireMatch => "Captures are missing the entire match"

/-- What comes to a result has come to one at each step. -/
theorem of_bind_eq_ok {α β : Type} {outcome : Except Fault α} {next : α → Except Fault β}
    {result : β} (success : outcome >>= next = .ok result) :
    ∃ value, outcome = .ok value ∧ next value = .ok result := by
  cases outcome with
  | error fault => cases success
  | ok value => exact ⟨value, rfl, success⟩

theorem of_map_eq_ok {α β : Type} {f : α → β} {outcome : Except Fault α} {result : β}
    (success : outcome.map f = .ok result) : ∃ value, outcome = .ok value ∧ f value = result := by
  cases outcome with
  | error fault => cases success
  | ok value => exact ⟨value, rfl, Except.ok.inj success⟩

theorem ne_error_of_isOk {α : Type} {outcome : Except Fault α} (success : outcome.isOk = true)
    (fault : Fault) : outcome ≠ .error fault := by
  intro failed
  rw [failed] at success
  cases success

theorem ne_error_of_map_eq_ok {α β : Type} {f : α → β} {outcome : Except Fault α} {result : β}
    (success : outcome.map f = .ok result) (fault : Fault) : outcome ≠ .error fault := by
  obtain ⟨value, rfl, -⟩ := of_map_eq_ok success
  intro failed
  cases failed

end Fault

/-- The state with this index, which must be below the limit. -/
def StateId.ofIndex (index : Nat) : Except Fault StateId :=
  if index < indexLimit then .ok ⟨index⟩ else .error .statesExhausted

/-- The history with this index, which must be below the limit. -/
def HistoryId.ofIndex (index : Nat) : Except Fault HistoryId :=
  if index < indexLimit then .ok ⟨index⟩ else .error .historiesExhausted

namespace Supply

/-- The next state that has not been handed out. -/
def freshState (supply : Supply) : Except Fault (StateId × Supply) :=
  (StateId.ofIndex supply.issued).map fun state => (state, ⟨supply.issued + 1⟩)

/-- The next history that has not been handed out. -/
def freshHistory (supply : Supply) : Except Fault (HistoryId × Supply) :=
  (HistoryId.ofIndex supply.issued).map fun history => (history, ⟨supply.issued + 1⟩)

/-- A fresh history is the one with the next index, unless that has reached the limit. -/
theorem freshHistory_eq_ok_iff (supply next : Supply) (history : HistoryId) :
    supply.freshHistory = .ok (history, next) ↔
      supply.issued < indexLimit ∧ history = ⟨supply.issued⟩ ∧ next = ⟨supply.issued + 1⟩ := by
  unfold freshHistory HistoryId.ofIndex
  by_cases below : supply.issued < indexLimit <;>
    simp [below, Except.map, eq_comm]

/-- As many fresh states as asked for, in the order in which they are handed out. -/
def freshStates (supply : Supply) : Nat → Except Fault (List StateId × Supply)
  | 0 => .ok ([], supply)
  | count + 1 => do
      let (state, supply) ← supply.freshState
      let (states, supply) ← supply.freshStates count
      return (state :: states, supply)

/-- As many fresh histories as asked for, in the order in which they are handed out. -/
def freshHistories (supply : Supply) : Nat → Except Fault (List HistoryId × Supply)
  | 0 => .ok ([], supply)
  | count + 1 => do
      let (history, supply) ← supply.freshHistory
      let (histories, supply) ← supply.freshHistories count
      return (history :: histories, supply)

end Supply

/-- The range between two bounds, which must be in order. -/
def CharRange.ofBounds (lo hi : Char) : Except Fault CharRange :=
  match ofBounds? lo hi with
  | some range => .ok range
  | none => .error (.invertedRange lo hi)

/-- A group inside another one, which must have a smaller number. -/
def Group.inside (number parent : Nat) : Except Fault Group :=
  if parent < number then .ok ⟨number, parent⟩ else .error (.groupNesting number parent)

end TaggedRegex
