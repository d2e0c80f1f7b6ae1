import TaggedRegex.Fault

set_option autoImplicit false

/-!
The histories of one match. A history has a head, which is overwritten, and committed values, which
never change once they are there.
-/

namespace TaggedRegex

/-- The record of one group boundary. The newest committed value comes first. -/
structure History where
  head : Option Int
  committed : List Int
  deriving DecidableEq

/-- Nothing has been set or committed. -/
def History.blank : History := ⟨none, []⟩

/-- The histories that exist, each under its name. -/
structure Memory where
  cells : List (HistoryId × History)

namespace Memory

/-- The history with this name, if it exists. -/
def get? (memory : Memory) (id : HistoryId) : Option History := memory.cells.lookup id

/-- Puts a history under a name, in the place of the one that was there. -/
def insertCell (id : HistoryId) (history : History) :
    List (HistoryId × History) → List (HistoryId × History)
  | [] => [(id, history)]
  | cell :: cells =>
      if cell.1 = id then (id, history) :: cells else cell :: insertCell id history cells

/-- Gives a name a history. -/
def put (memory : Memory) (id : HistoryId) (history : History) : Memory :=
  ⟨insertCell id history memory.cells⟩

theorem lookup_insertCell (id other : HistoryId) (history : History)
    (cells : List (HistoryId × History)) :
    (insertCell id history cells).lookup other =
      if other = id then some history else cells.lookup other := by
  induction cells with
  | nil =>
    by_cases same : other = id
    · simp [insertCell, same]
    · simp [insertCell, List.lookup_cons, beq_eq_false_iff_ne.2 same, same]
  | cons cell cells ih =>
    obtain ⟨name, old⟩ := cell
    rw [insertCell]
    by_cases first : name = id
    · subst first
      by_cases same : other = name
      · simp [same]
      · simp [List.lookup_cons, beq_eq_false_iff_ne.2 same, same]
    · by_cases here : other = name
      · subst here
        simp [first]
      · simp [List.lookup_cons, beq_eq_false_iff_ne.2 here, first, ih]

@[simp] theorem get?_put (memory : Memory) (id other : HistoryId) (history : History) :
    (memory.put id history).get? other = if other = id then some history else memory.get? other :=
  lookup_insertCell id other history memory.cells

/-- The memory in which the given histories exist and hold nothing. -/
def ofBlank (ids : List HistoryId) : Memory :=
  ids.foldl (fun memory id => memory.put id .blank) ⟨[]⟩

theorem get?_foldl_put_blank (ids : List HistoryId) (memory : Memory) (id : HistoryId) :
    (ids.foldl (fun memory id => memory.put id .blank) memory).get? id =
      if id ∈ ids then some .blank else memory.get? id := by
  induction ids generalizing memory with
  | nil => simp
  | cons first rest ih =>
    rw [List.foldl_cons, ih, get?_put]
    by_cases here : id = first <;> by_cases later : id ∈ rest <;> simp [here, later]

theorem get?_ofBlank (ids : List HistoryId) (id : HistoryId) :
    (ofBlank ids).get? id = if id ∈ ids then some .blank else none :=
  get?_foldl_put_blank ids ⟨[]⟩ id

/-- A history that is read must exist. -/
def read (memory : Memory) (id : HistoryId) : Except Fault History :=
  match memory.get? id with
  | some history => .ok history
  | none => .error (.readUninitialised id)

/-- Overwrites the head of a history, which must exist. -/
def set (memory : Memory) (id : HistoryId) (value : Int) : Except Fault Memory :=
  match memory.get? id with
  | some history => .ok (memory.put id { history with head := some value })
  | none => .error (.writtenUninitialised id)

/-- Makes one history equal to another, which must exist. Later writes to one of them leave the
other as it is. -/
def copy (memory : Memory) (target source : HistoryId) : Except Fault Memory :=
  (memory.read source).map (memory.put target)

/-- Adds the head, which must be set, to the committed values. -/
def commit (memory : Memory) (id : HistoryId) : Except Fault Memory :=
  match memory.read id with
  | .error fault => .error fault
  | .ok ⟨some value, committed⟩ => .ok (memory.put id ⟨some value, value :: committed⟩)
  | .ok ⟨none, _⟩ => .error (.commitWithoutValue id)

/-- Empties a history, which comes to exist if it did not. -/
def reset (memory : Memory) (id : HistoryId) : Memory := memory.put id .blank

/-- The committed values of a history, which must exist, newest first. -/
def committed (memory : Memory) (id : HistoryId) : Except Fault (List Int) :=
  (memory.read id).map History.committed

/-- The newest committed value of a history, which must exist. -/
def latest (memory : Memory) (id : HistoryId) : Except Fault (Option Int) :=
  (memory.committed id).map List.head?

/-- Runs one instruction. `position` is the index of the last character read in its string, and -1
before the first one. It is less than the length of the string, and the offset of a tag is 0 or 1,
so that `position + offset` stays within a signed machine word, where `Int` is exact. -/
def perform (memory : Memory) (position : Int) : Instruction → Except Fault Memory
  | .set id offset => memory.set id (position + offset)
  | .copy target source => memory.copy target source
  | .commitStart id => memory.commit id
  | .commitEnd id => memory.commit id
  | .reset id => .ok (memory.reset id)

/-- Runs instructions in order. -/
def performAll (memory : Memory) (position : Int) : List Instruction → Except Fault Memory
  | [] => .ok memory
  | instruction :: rest =>
      match memory.perform position instruction with
      | .ok memory => memory.performAll position rest
      | .error fault => .error fault

theorem performAll_append (memory : Memory) (position : Int) (first second : List Instruction) :
    memory.performAll position (first ++ second) =
      (memory.performAll position first).bind fun memory => memory.performAll position second := by
  induction first generalizing memory with
  | nil => rfl
  | cons instruction rest ih =>
    simp only [List.cons_append, performAll]
    cases memory.perform position instruction with
    | error fault => rfl
    | ok next => exact ih next

/-- The committed values of a history as a list in brackets. -/
def valuesText (values : List Int) : String :=
  "[" ++ ", ".intercalate (values.map toString) ++ "]"

end Memory

end TaggedRegex
