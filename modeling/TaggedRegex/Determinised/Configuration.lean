import TaggedRegex.Ident

set_option autoImplicit false

/-!
States of the determinised automaton: the live states of the automaton that may have been reached,
each with the histories of its group boundaries.
-/

namespace TaggedRegex

/-- A state of the automaton with one history for every tag. -/
structure Thread where
  state : StateId
  histories : List HistoryId
  deriving DecidableEq

namespace Thread

/-- Adds a thread at the end, or in the place of the thread with the same state. -/
def putInto (thread : Thread) : List Thread → List Thread
  | [] => [thread]
  | first :: rest =>
      if first.state = thread.state then thread :: rest else first :: thread.putInto rest

/-- Placing a thread adds its state at the end of the key, unless the state is there already. -/
theorem map_state_putInto (thread : Thread) (threads : List Thread) :
    (thread.putInto threads).map Thread.state =
      if thread.state ∈ threads.map Thread.state then threads.map Thread.state
      else threads.map Thread.state ++ [thread.state] := by
  induction threads with
  | nil => simp [putInto]
  | cons first rest ih =>
    rw [putInto]
    by_cases same : first.state = thread.state
    · simp [same]
    · rw [if_neg same, List.map_cons, ih]
      by_cases later : thread.state ∈ rest.map Thread.state
      · simp [later]
      · simp [later, Ne.symm same]

def text (thread : Thread) : String :=
  thread.state.text ++ ": [" ++ " ".intercalate (thread.histories.map HistoryId.text) ++ "]"

end Thread

/-- Threads with different states, the most important first. -/
structure Configuration where
  threads : List Thread
  deriving DecidableEq

namespace Configuration

/-- A state that occurs again keeps its first place and takes its last histories. -/
def ofThreads (threads : List Thread) : Configuration :=
  ⟨threads.foldl (fun placed thread => thread.putInto placed) []⟩

/-- The states in order; what two configurations must share to be compared. -/
def key (configuration : Configuration) : List StateId := configuration.threads.map Thread.state

/-- The histories that go with a state. -/
def historiesOf? (configuration : Configuration) (state : StateId) : Option (List HistoryId) :=
  (configuration.threads.find? fun thread => thread.state = state).map Thread.histories

/-- No state occurs twice in a configuration that is made of threads. -/
theorem nodup_key_ofThreads (threads : List Thread) : (ofThreads threads).key.Nodup := by
  suffices placed : ∀ start : List Thread, (start.map Thread.state).Nodup →
      ((threads.foldl (fun placed thread => thread.putInto placed) start).map
        Thread.state).Nodup from placed [] (by simp)
  induction threads with
  | nil => exact fun start nodup => nodup
  | cons thread rest ih =>
    intro start nodup
    refine ih (thread.putInto start) ?_
    rw [Thread.map_state_putInto]
    split
    · exact nodup
    · rename_i fresh
      rw [List.nodup_append]
      refine ⟨nodup, by simp, ?_⟩
      intro state member other last
      rintro rfl
      exact fresh (List.mem_singleton.1 last ▸ member)

/-- The order of keys: by the first state in which they differ; a key comes after the keys that it
continues. -/
def compareKeys : List StateId → List StateId → Ordering
  | [], [] => .eq
  | [], _ :: _ => .lt
  | _ :: _, [] => .gt
  | a :: as, b :: bs =>
      if a.index < b.index then .lt
      else if b.index < a.index then .gt
      else compareKeys as bs

def keyText (key : List StateId) : String :=
  "\x7b" ++ " ".intercalate (key.map StateId.text) ++ "\x7d"

def text (configuration : Configuration) : String :=
  "\x7b" ++ ", ".intercalate (configuration.threads.map Thread.text) ++ "\x7d"

end Configuration

end TaggedRegex
