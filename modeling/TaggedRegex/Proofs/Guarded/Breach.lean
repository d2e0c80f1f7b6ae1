import TaggedRegex.Fault

set_option autoImplicit false

/-!
What must never happen inside the library. The guarded versions of its operations look at each of
these conditions where it is relied upon, and stop if it is broken.
-/

namespace TaggedRegex

inductive Breach where
  /-- An operation was asked for something that it refuses. -/
  | fault (fault : Fault)
  /-- More ranges have ended than have begun. -/
  | negativeDepth
  /-- Some range never ends. -/
  | openRange
  /-- A part begins or ends at a number that is no character. -/
  | notCharacter (point : Nat)
  /-- A renaming knows a pair from one side only. -/
  | halfPaired (source target : HistoryId)
  /-- A name on a cycle has no image. -/
  | openCycle (history : HistoryId)
  /-- A walk along links goes on for ever. -/
  | endless
  /-- Configurations are compared that have different keys. -/
  | keysDiffer
  /-- Threads are compared that have different numbers of slots. -/
  | slotsDiffer
  /-- A step begins although work is left from the one before. -/
  | workLeft
  /-- The labels that may read a character are looked up from behind. -/
  | invertedLookup
  /-- A thread waits for something to consume in a step that consumes nothing. -/
  | hungryAtStart
  deriving DecidableEq

/-- The outcome of an operation that has no conditions of its own to look at. -/
def guarded {α : Type} : Except Fault α → Except Breach α
  | .ok value => .ok value
  | .error fault => .error (.fault fault)

theorem guarded_bind {α β : Type} (outcome : Except Fault α) (f : α → Except Fault β) :
    guarded (outcome >>= f) = guarded outcome >>= fun value => guarded (f value) := by
  cases outcome <;> rfl

theorem mapM_guarded {α β : Type} {checked : α → Except Breach β} {plain : α → Except Fault β}
    (each : ∀ value, checked value = guarded (plain value)) (values : List α) :
    values.mapM checked = guarded (values.mapM plain) := by
  induction values with
  | nil => rfl
  | cons first rest ih =>
    rw [List.mapM_cons, List.mapM_cons, each, guarded_bind]
    congr 1
    funext value
    rw [ih, guarded_bind]
    rfl

/-- A guarded operation does what the plain one does: it refuses what that one refuses, and gives
something that fits otherwise. -/
inductive Refines {α β : Type} (fits : α → β → Prop) : Except Breach α → Except Fault β → Prop where
  | refuses (fault : Fault) : Refines fits (.error (.fault fault)) (.error fault)
  | gives {value : α} {plain : β} (fit : fits value plain) : Refines fits (.ok value) (.ok plain)

/-- Operations may follow each other that fit on what fits. -/
theorem Refines.bind {α β γ δ : Type} {fits : α → β → Prop} {later : γ → δ → Prop}
    {checked : Except Breach α} {plain : Except Fault β} (refines : Refines fits checked plain)
    {onwards : α → Except Breach γ} {next : β → Except Fault δ}
    (each : ∀ value expected, fits value expected → plain = .ok expected →
      Refines later (onwards value) (next expected)) :
    Refines later (checked >>= onwards) (plain >>= next) := by
  cases refines with
  | refuses fault => exact .refuses fault
  | gives fit => exact each _ _ fit rfl

/-- An operation without conditions of its own may come first. -/
theorem refines_guarded_bind {α γ δ : Type} {later : γ → δ → Prop} {outcome : Except Fault α}
    {onwards : α → Except Breach γ} {next : α → Except Fault δ}
    (each : ∀ value, outcome = .ok value → Refines later (onwards value) (next value)) :
    Refines later (guarded outcome >>= onwards) (outcome >>= next) := by
  cases outcome with
  | error fault => exact .refuses fault
  | ok value => exact each value rfl

end TaggedRegex
