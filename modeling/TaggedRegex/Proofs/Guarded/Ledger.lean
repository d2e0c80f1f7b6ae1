import TaggedRegex.Proofs.Guarded.Arena
import TaggedRegex.Proofs.History.Execution

set_option autoImplicit false

/-!
Histories as plain values. Although the arena shares nodes between histories and a copy only copies
two words, every name behaves as if it had a list of its own: what is done under one name is never
seen under another.
-/

namespace TaggedRegex

/-- A history under every name that has one. Nothing is shared. -/
structure Ledger where
  entry? : HistoryId → Option History

namespace Ledger

def ofBlank (ids : List HistoryId) : Ledger := ⟨fun id => if id ∈ ids then some .blank else none⟩

/-- Why an instruction cannot run: the history that it reads or changes does not exist, or it has no
head to commit. -/
def obstacle? (ledger : Ledger) : Instruction → Option Fault
  | .set id _ => if ledger.entry? id = none then some (.writtenUninitialised id) else none
  | .copy _ source => if ledger.entry? source = none then some (.readUninitialised source) else none
  | .commitStart id | .commitEnd id =>
      match ledger.entry? id with
      | none => some (.readUninitialised id)
      | some history => if history.head = none then some (.commitWithoutValue id) else none
  | .reset _ => none

/-- What the history that an instruction writes becomes. A commit puts the head in front of the
history's own list. As in `Memory.perform`, `position` is the index of a character of a string or
-1, so that `position + offset` stays within a signed machine word. -/
def written? (ledger : Ledger) (position : Int) : Instruction → Option History
  | .set id offset =>
      (ledger.entry? id).map fun history => { history with head := some (position + offset) }
  | .copy _ source => ledger.entry? source
  | .commitStart id | .commitEnd id =>
      (ledger.entry? id).map fun history =>
        { history with committed := history.head.toList ++ history.committed }
  | .reset _ => some .blank

/-- Only the name that is written gets a new entry. -/
def perform (ledger : Ledger) (position : Int) (instruction : Instruction) : Ledger :=
  ⟨fun id => if id = instruction.written then ledger.written? position instruction
    else ledger.entry? id⟩

/-- Runs instructions, each at its own position, up to the first that cannot run. -/
def performEach (ledger : Ledger) : List (Int × Instruction) → Except Fault Ledger
  | [] => .ok ledger
  | (position, instruction) :: rest =>
      match ledger.obstacle? instruction with
      | some fault => .error fault
      | none => (ledger.perform position instruction).performEach rest

/-- The committed values under a name, which must be in use, newest first. -/
def committed (ledger : Ledger) (id : HistoryId) : Except Fault (List Int) :=
  match ledger.entry? id with
  | some history => .ok history.committed
  | none => .error (.readUninitialised id)

def latest (ledger : Ledger) (id : HistoryId) : Except Fault (Option Int) :=
  (ledger.committed id).map List.head?

end Ledger

/-! ### Memories -/

namespace Memory

def performEach (memory : Memory) (calls : List (Int × Instruction)) : Except Fault Memory :=
  calls.foldlM (fun memory call => memory.perform call.1 call.2) memory

/-- What a memory holds. -/
def ledger (memory : Memory) : Ledger := ⟨memory.get?⟩

theorem ledger_ofBlank (ids : List HistoryId) : (ofBlank ids).ledger = .ofBlank ids :=
  congrArg Ledger.mk (funext fun id => get?_ofBlank ids id)

theorem ledger_put {memory : Memory} {position : Int} (instruction : Instruction)
    {history : History}
    (becomes : memory.ledger.written? position instruction = some history) :
    (memory.put instruction.written history).ledger =
      memory.ledger.perform position instruction := by
  rw [Ledger.perform, becomes]
  exact congrArg Ledger.mk (funext fun id => get?_put memory _ id history)

/-- The instruction is refused for the reason that the ledger gives, or the memory becomes what the
ledger becomes. -/
def Foresees (memory : Memory) (position : Int) (instruction : Instruction)
    (outcome : Except Fault Memory) : Prop :=
  (∃ fault, memory.ledger.obstacle? instruction = some fault ∧ outcome = .error fault) ∨
    memory.ledger.obstacle? instruction = none ∧
      ∃ after, outcome = .ok after ∧ after.ledger = memory.ledger.perform position instruction

/-- A commit, of whichever boundary. -/
theorem foresees_commit {memory : Memory} {position : Int} (instruction : Instruction)
    (obstacle : memory.ledger.obstacle? instruction =
      memory.ledger.obstacle? (.commitStart instruction.written))
    (becomes : memory.ledger.written? position instruction =
      memory.ledger.written? position (.commitStart instruction.written)) :
    memory.Foresees position instruction (memory.commit instruction.written) := by
  rw [Foresees, obstacle, commit, read]
  cases found : memory.get? instruction.written with
  | none => exact Or.inl ⟨_, by simp only [Ledger.obstacle?, ledger, found], rfl⟩
  | some history =>
    obtain ⟨head, committed⟩ := history
    cases head with
    | none => exact Or.inl ⟨_, by simp only [Ledger.obstacle?, ledger, found, if_true], rfl⟩
    | some value =>
      refine Or.inr ⟨by simp [Ledger.obstacle?, ledger, found], _, rfl, ledger_put instruction ?_⟩
      rw [becomes]
      simp only [Ledger.written?, ledger, found, Option.map_some]
      rfl

theorem foresees_perform (memory : Memory) (position : Int) (instruction : Instruction) :
    memory.Foresees position instruction (memory.perform position instruction) := by
  cases instruction with
  | set id offset =>
    rw [perform, set]
    cases found : memory.get? id with
    | none => exact Or.inl ⟨_, by simp only [Ledger.obstacle?, ledger, found, if_true], rfl⟩
    | some history =>
      refine Or.inr ⟨by simp [Ledger.obstacle?, ledger, found], _, rfl,
        ledger_put (.set id offset) ?_⟩
      simp only [Ledger.written?, ledger, found, Option.map_some]
  | copy target source =>
    rw [perform, copy, read]
    cases found : memory.get? source with
    | none => exact Or.inl ⟨_, by simp only [Ledger.obstacle?, ledger, found, if_true], rfl⟩
    | some history =>
      exact Or.inr ⟨by simp [Ledger.obstacle?, ledger, found], _, rfl,
        ledger_put (.copy target source) found⟩
  | commitStart id => exact foresees_commit (.commitStart id) rfl rfl
  | commitEnd id => exact foresees_commit (.commitEnd id) rfl rfl
  | reset id => exact Or.inr ⟨rfl, _, rfl, ledger_put (.reset id) rfl⟩

theorem committed_ledger (memory : Memory) (id : HistoryId) :
    memory.committed id = memory.ledger.committed id := by
  unfold committed read Ledger.committed ledger
  dsimp only
  cases memory.get? id <;> rfl

theorem latest_ledger (memory : Memory) (id : HistoryId) :
    memory.latest id = memory.ledger.latest id := by
  rw [latest, committed_ledger, Ledger.latest]

end Memory

/-! ### Arenas -/

namespace Arena

variable {arena later : Arena} {memory : Memory}

def performEach (arena : Arena) (calls : List (Int × Instruction)) : Except Breach Arena :=
  calls.foldlM (fun arena call => arena.perform call.1 call.2) arena

/-- The newest value of a history, which must exist. Only its own node is looked at. -/
def latest (arena : Arena) (id : HistoryId) : Except Breach (Option Int) := do
  let cell ← arena.read id
  match cell.newest with
  | none => .ok none
  | some index =>
      match arena.nodes[index]? with
      | none => .error (.fault (.outOfBounds index arena.nodes.size))
      | some node => .ok (some node.value)

theorem Represents.latest (represents : arena.Represents memory) (id : HistoryId) :
    arena.latest id = guarded (memory.latest id) := by
  unfold Arena.latest Arena.read Memory.latest Memory.committed Memory.read
  obtain ⟨missing, absent⟩ | ⟨cell, history, found, present, shares⟩ := represents.cases id
  · rw [missing, absent]
    rfl
  · rw [found, present]
    obtain ⟨head, committed⟩ := history
    obtain ⟨-, chain⟩ := shares
    dsimp only at chain
    dsimp only [bind, Except.bind, Except.map]
    generalize cell.newest = newest at chain
    cases chain with
    | nil => rfl
    | cons _ here _ =>
      dsimp only
      rw [here]
      rfl

/-- An arena and a memory answer as the ledger does. -/
structure Answers (arena : Arena) (memory : Memory) (ledger : Ledger) : Prop where
  represents : arena.Represents memory
  ledger : memory.ledger = ledger

theorem Answers.committed {ledger : Ledger} (answers : arena.Answers memory ledger)
    (id : HistoryId) : arena.committed id = guarded (ledger.committed id) := by
  rw [answers.represents.committed, Memory.committed_ledger, answers.ledger]

theorem Answers.latest {ledger : Ledger} (answers : arena.Answers memory ledger)
    (id : HistoryId) : arena.latest id = guarded (ledger.latest id) := by
  rw [answers.represents.latest, Memory.latest_ledger, answers.ledger]

/-- One instruction. -/
theorem Answers.perform_cases {ledger : Ledger} (answers : arena.Answers memory ledger)
    (position : Int) (instruction : Instruction) :
    (∃ fault, ledger.obstacle? instruction = some fault ∧
      arena.perform position instruction = .error (.fault fault) ∧
      memory.perform position instruction = .error fault) ∨
    ledger.obstacle? instruction = none ∧
      ∃ later after, arena.perform position instruction = .ok later ∧
        memory.perform position instruction = .ok after ∧
        later.Answers after (ledger.perform position instruction) := by
  have refines := answers.represents.perform position instruction
  rw [← answers.ledger]
  obtain ⟨fault, obstacle, refused⟩ | ⟨clear, after, success, becomes⟩ :=
    memory.foresees_perform position instruction
  · rw [refused] at refines
    generalize arena.perform position instruction = outcome at refines ⊢
    cases refines with
    | refuses fault => exact Or.inl ⟨fault, obstacle, rfl, refused⟩
  · rw [success] at refines
    generalize arena.perform position instruction = outcome at refines ⊢
    cases refines with
    | @gives later _ fit => exact Or.inr ⟨clear, later, after, rfl, success, fit, becomes⟩

/-- A sequence of instructions. -/
theorem Answers.performEach_cases {ledger : Ledger} (answers : arena.Answers memory ledger)
    (calls : List (Int × Instruction)) :
    (∃ fault, ledger.performEach calls = .error fault ∧
      arena.performEach calls = .error (.fault fault) ∧
      memory.performEach calls = .error fault) ∨
    ∃ last later after, ledger.performEach calls = .ok last ∧
      arena.performEach calls = .ok later ∧ memory.performEach calls = .ok after ∧
      later.Answers after last := by
  induction calls generalizing arena memory ledger with
  | nil => exact Or.inr ⟨ledger, arena, memory, rfl, rfl, rfl, answers⟩
  | cons call rest ih =>
    obtain ⟨position, instruction⟩ := call
    unfold Arena.performEach Memory.performEach at ih ⊢
    rw [Ledger.performEach, List.foldlM_cons, List.foldlM_cons]
    obtain ⟨fault, obstacle, refused, refused'⟩ | ⟨clear, later, after, success, success', next⟩ :=
      answers.perform_cases position instruction
    · rw [obstacle, refused, refused']
      exact Or.inl ⟨fault, rfl, rfl, rfl⟩
    · rw [clear, success, success']
      exact ih next

theorem answers_ofBlank (ids : List HistoryId) :
    ∃ arena, ofBlank ids = .ok arena ∧ arena.Answers (Memory.ofBlank ids) (.ofBlank ids) := by
  have blank := ofBlank_refines ids
  generalize ofBlank ids = opened at blank ⊢
  cases blank with
  | gives represents => exact ⟨_, rfl, represents, Memory.ledger_ofBlank ids⟩

/-- What is written under one name is not seen under another, even if they share their nodes. -/
theorem Answers.unseen {ledger : Ledger} (answers : arena.Answers memory ledger) {position : Int}
    {instruction : Instruction} (success : arena.perform position instruction = .ok later)
    {other : HistoryId} (different : other ≠ instruction.written) :
    later.committed other = arena.committed other ∧ later.latest other = arena.latest other := by
  obtain ⟨fault, -, refused, -⟩ | ⟨-, next, after, performed, -, following⟩ :=
    answers.perform_cases position instruction
  · rw [refused] at success
    cases success
  · obtain rfl := Except.ok.inj (performed.symm.trans success)
    have same : (ledger.perform position instruction).committed other = ledger.committed other := by
      unfold Ledger.committed Ledger.perform
      dsimp only
      rw [if_neg different]
    refine ⟨?_, ?_⟩
    · rw [following.committed, same, answers.committed]
    · rw [following.latest, answers.latest, Ledger.latest, same, Ledger.latest]

/-- Whatever instructions have run, histories that share their nodes behave like histories of which
each has a list of its own. The instructions are refused exactly where those of the ledger are, for
the same reason, and so is every further one. Otherwise every name answers with its own list, newest
value first, and no instruction changes what is found under a name that it does not write. -/
theorem performEach_as_ledger (ids : List HistoryId) (calls : List (Int × Instruction)) :
    ∃ opened, ofBlank ids = .ok opened ∧
      match (Ledger.ofBlank ids).performEach calls with
      | .error fault =>
          opened.performEach calls = .error (.fault fault) ∧
          (Memory.ofBlank ids).performEach calls = .error fault
      | .ok ledger =>
          ∃ arena memory, opened.performEach calls = .ok arena ∧
            (Memory.ofBlank ids).performEach calls = .ok memory ∧
            (∀ id, arena.committed id = guarded (ledger.committed id) ∧
              arena.latest id = guarded (ledger.latest id) ∧
              memory.committed id = ledger.committed id ∧ memory.latest id = ledger.latest id) ∧
            (∀ position instruction breach, arena.perform position instruction = .error breach ↔
              ∃ fault, ledger.obstacle? instruction = some fault ∧ breach = .fault fault) ∧
            ∀ position instruction later, arena.perform position instruction = .ok later →
              ∀ other, other ≠ instruction.written →
                later.committed other = arena.committed other ∧
                later.latest other = arena.latest other := by
  obtain ⟨opened, blank, begins⟩ := answers_ofBlank ids
  refine ⟨opened, blank, ?_⟩
  obtain ⟨fault, refused, checked, plain⟩ |
    ⟨ledger, arena, memory, success, checked, plain, answers⟩ := begins.performEach_cases calls
  · rw [refused]
    exact ⟨checked, plain⟩
  · rw [success]
    refine ⟨arena, memory, checked, plain, ?_, ?_, ?_⟩
    · intro id
      refine ⟨answers.committed id, answers.latest id, ?_, ?_⟩
      · rw [Memory.committed_ledger, answers.ledger]
      · rw [Memory.latest_ledger, answers.ledger]
    · intro position instruction breach
      obtain ⟨fault, obstacle, refused, -⟩ | ⟨clear, later, -, performed, -⟩ :=
        answers.perform_cases position instruction
      · rw [obstacle, refused]
        simp [eq_comm]
      · rw [clear, performed]
        simp
    · intro position instruction later performed other different
      exact answers.unseen performed different

end Arena

end TaggedRegex
