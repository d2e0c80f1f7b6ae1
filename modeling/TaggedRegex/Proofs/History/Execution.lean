import TaggedRegex.Determinised.Closure
import TaggedRegex.History.Memory

set_option autoImplicit false

/-!
What instruction lists do to a memory. Names that no instruction writes keep their history, and the
three instructions of a crossed tag put the new boundary in front of the old ones.
-/

namespace TaggedRegex

/-- The history that an instruction may change. -/
def Instruction.written : Instruction → HistoryId
  | .set history _ => history
  | .copy target _ => target
  | .commitStart history => history
  | .commitEnd history => history
  | .reset history => history

/-- The histories that an instruction reads or writes. -/
def Instruction.mentioned : Instruction → List HistoryId
  | .copy target source => [target, source]
  | .set history _ | .commitStart history | .commitEnd history | .reset history => [history]

namespace Memory

/-- The history exists, and these are its committed values, newest first. -/
def Holds (memory : Memory) (id : HistoryId) (values : List Int) : Prop :=
  (memory.get? id).map History.committed = some values

theorem holds_iff (memory : Memory) (id : HistoryId) (values : List Int) :
    memory.Holds id values ↔ ∃ head, memory.get? id = some ⟨head, values⟩ := by
  unfold Holds
  cases memory.get? id with
  | none => simp
  | some history =>
    obtain ⟨head, committed⟩ := history
    simp

/-- Only the history that a name stands for decides what the name holds. -/
theorem Holds.of_get?_eq {before after : Memory} {source target : HistoryId} {values : List Int}
    (holds : before.Holds source values) (same : after.get? target = before.get? source) :
    after.Holds target values := by
  unfold Holds at holds ⊢
  rw [same, holds]

theorem Holds.exists_get? {memory : Memory} {id : HistoryId} {values : List Int}
    (holds : memory.Holds id values) : ∃ history, memory.get? id = some history := by
  obtain ⟨head, found⟩ := (holds_iff memory id values).1 holds
  exact ⟨_, found⟩

theorem committed_of_holds {memory : Memory} {id : HistoryId} {values : List Int}
    (holds : memory.Holds id values) : memory.committed id = .ok values := by
  obtain ⟨head, found⟩ := (holds_iff memory id values).1 holds
  simp only [committed, read, found, Except.map]

theorem ofBlank_holds {ids : List HistoryId} {id : HistoryId} (member : id ∈ ids) :
    (ofBlank ids).Holds id [] := by
  rw [Holds, get?_ofBlank, if_pos member]
  rfl

@[simp] theorem performAll_nil (memory : Memory) (position : Int) :
    memory.performAll position [] = .ok memory := rfl

theorem performAll_append_of_ok {memory middle : Memory} {position : Int}
    {first : List Instruction} (success : memory.performAll position first = .ok middle)
    (second : List Instruction) :
    memory.performAll position (first ++ second) = middle.performAll position second := by
  rw [performAll_append, success]
  rfl

theorem performAll_copy {memory : Memory} {source : HistoryId} {history : History}
    (found : memory.get? source = some history) (position : Int) (target : HistoryId)
    (rest : List Instruction) :
    memory.performAll position (.copy target source :: rest) =
      (memory.put target history).performAll position rest := by
  simp only [performAll, perform, copy, read, found, Except.map]

theorem performAll_reset (memory : Memory) (position : Int) (id : HistoryId)
    (rest : List Instruction) :
    memory.performAll position (.reset id :: rest) =
      (memory.put id .blank).performAll position rest := by
  simp only [performAll, perform, reset]

theorem performAll_set {memory : Memory} {id : HistoryId} {history : History}
    (found : memory.get? id = some history) (position offset : Int) (rest : List Instruction) :
    memory.performAll position (.set id offset :: rest) =
      (memory.put id ⟨some (position + offset), history.committed⟩).performAll position rest := by
  simp only [performAll, perform, set, found]

theorem performAll_commit {memory : Memory} {id : HistoryId} {value : Int} {committed : List Int}
    (found : memory.get? id = some ⟨some value, committed⟩) (position : Int) (tag : Tag)
    (rest : List Instruction) :
    memory.performAll position (tag.commit id :: rest) =
      (memory.put id ⟨some value, value :: committed⟩).performAll position rest := by
  unfold Tag.commit
  cases tag.boundary <;> simp only [performAll, perform, commit, read, found]

/-- Crossing a tag leaves the old history alone and gives the fresh name a copy of it, with the
boundary of the tag in front. -/
theorem performAll_cross {memory : Memory} {old : HistoryId} {values : List Int}
    (holds : memory.Holds old values) (position : Int) (tag : Tag) (fresh : HistoryId) :
    ∃ after, memory.performAll position
        [.copy fresh old, .set fresh tag.offset, tag.commit fresh] = .ok after ∧
      after.Holds fresh ((position + tag.offset) :: values) ∧
      ∀ id, id ≠ fresh → after.get? id = memory.get? id := by
  obtain ⟨head, found⟩ := (holds_iff memory old values).1 holds
  let value := position + tag.offset
  let copied := memory.put fresh ⟨head, values⟩
  let marked := copied.put fresh ⟨some value, values⟩
  have copied_fresh : copied.get? fresh = some ⟨head, values⟩ := by
    rw [get?_put, if_pos rfl]
  have marked_fresh : marked.get? fresh = some ⟨some value, values⟩ := by
    rw [get?_put, if_pos rfl]
  refine ⟨marked.put fresh ⟨some value, value :: values⟩, ?_, ?_, ?_⟩
  · rw [performAll_copy found, performAll_set copied_fresh, performAll_commit marked_fresh,
      performAll_nil]
  · rw [holds_iff, get?_put, if_pos rfl]
    exact ⟨some value, rfl⟩
  · intro id other
    simp only [marked, copied, get?_put, if_neg other]

/-! ### What stays as it is -/

theorem exists_put_of_commit {memory after : Memory} {id : HistoryId}
    (success : memory.commit id = .ok after) : ∃ history, after = memory.put id history := by
  unfold commit at success
  split at success
  · cases success
  · exact ⟨_, (Except.ok.inj success).symm⟩
  · cases success

theorem get?_of_perform {memory after : Memory} {position : Int} {instruction : Instruction}
    (success : memory.perform position instruction = .ok after) {id : HistoryId}
    (other : id ≠ instruction.written) : after.get? id = memory.get? id := by
  have put : ∃ history, after = memory.put instruction.written history := by
    cases instruction with
    | set name offset =>
      rw [perform, set] at success
      split at success
      · exact ⟨_, (Except.ok.inj success).symm⟩
      · cases success
    | copy target source =>
      obtain ⟨history, -, same⟩ := Fault.of_map_eq_ok success
      exact ⟨history, same.symm⟩
    | commitStart name => exact exists_put_of_commit success
    | commitEnd name => exact exists_put_of_commit success
    | reset name => exact ⟨_, (Except.ok.inj success).symm⟩
  obtain ⟨history, rfl⟩ := put
  rw [get?_put, if_neg other]

/-- A history that no instruction changes is as it was. -/
theorem get?_of_performAll {memory after : Memory} {position : Int}
    {instructions : List Instruction}
    (success : memory.performAll position instructions = .ok after)
    {id : HistoryId} (untouched : ∀ instruction ∈ instructions, id ≠ instruction.written) :
    after.get? id = memory.get? id := by
  induction instructions generalizing memory with
  | nil =>
    obtain rfl := Except.ok.inj success
    rfl
  | cons first rest ih =>
    rw [performAll] at success
    cases performed : memory.perform position first with
    | error fault =>
      rw [performed] at success
      cases success
    | ok middle =>
      rw [performed] at success
      rw [ih success
          fun instruction member => untouched instruction (List.mem_cons_of_mem _ member),
        get?_of_perform performed (untouched first (List.mem_cons_self ..))]

end Memory

end TaggedRegex
