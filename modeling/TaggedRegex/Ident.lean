set_option autoImplicit false

/-!
Names of automaton states and of histories: numbers handed out in increasing order.
-/

namespace TaggedRegex

/-- A state of an automaton. -/
structure StateId where
  index : Nat
  deriving DecidableEq

/-- A history, the record of where one group boundary was crossed. -/
structure HistoryId where
  index : Nat
  deriving DecidableEq

def StateId.text (state : StateId) : String := "q" ++ toString state.index

def HistoryId.text (history : HistoryId) : String := "h" ++ toString history.index

/-- Indices of names stay below this number. -/
def indexLimit : Nat := 4294967296

/-- The names handed out so far are those with an index below `issued`. -/
structure Supply where
  issued : Nat
  deriving DecidableEq

namespace Supply

/-- No name has been handed out. -/
def empty : Supply := ⟨0⟩

def text (supply : Supply) : String := "Free(" ++ toString supply.issued ++ ")"

end Supply

end TaggedRegex
