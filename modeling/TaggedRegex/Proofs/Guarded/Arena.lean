import TaggedRegex.History.Memory
import TaggedRegex.Proofs.Guarded.Breach

set_option autoImplicit false

/-!
Histories that share their committed values. Every commit adds a node that links to the one before,
so a history is copied in one step however much it holds, and nothing is ever taken away.
-/

namespace TaggedRegex

/-- A committed value, and the node of the one committed before. -/
structure Arena.Node where
  value : Int
  older : Option Nat

/-- A history whose committed values are found from the node of the newest one. -/
structure Arena.Cell where
  head : Option Int
  newest : Option Nat

structure Arena where
  slots : Array (Option Arena.Cell)
  nodes : Array Arena.Node

namespace Arena

def Cell.blank : Cell := ⟨none, none⟩

/-- The cell of a history, if it exists. -/
def get? (arena : Arena) (id : HistoryId) : Option Cell := arena.slots[id.index]?.join

/-- The slots reach up to the index before it is used. -/
def put (arena : Arena) (id : HistoryId) (cell : Cell) : Except Breach Arena :=
  let slots := arena.slots ++ Array.replicate (id.index + 1 - arena.slots.size) none
  if within : id.index < slots.size then
    .ok { arena with slots := slots.set id.index (some cell) }
  else .error (.fault (.outOfBounds id.index slots.size))

def ofBlank (ids : List HistoryId) : Except Breach Arena :=
  ids.foldlM (fun arena id => arena.put id .blank) ⟨#[], #[]⟩

def read (arena : Arena) (id : HistoryId) : Except Breach Cell :=
  match arena.get? id with
  | some cell => .ok cell
  | none => .error (.fault (.readUninitialised id))

/-- Changes the cell of a history, which must exist. -/
def modify (arena : Arena) (id : HistoryId) (change : Cell → Cell) : Except Breach Arena :=
  match arena.get? id with
  | some cell => arena.put id (change cell)
  | none => .error (.fault (.writtenUninitialised id))

def set (arena : Arena) (id : HistoryId) (value : Int) : Except Breach Arena :=
  arena.modify id fun cell => { cell with head := some value }

def copy (arena : Arena) (target source : HistoryId) : Except Breach Arena := do
  let cell ← arena.read source
  arena.put target cell

def addNode (arena : Arena) (node : Node) : Arena :=
  { arena with nodes := arena.nodes.push node }

/-- The node is added first, then the history is made to begin with it. -/
def commit (arena : Arena) (id : HistoryId) : Except Breach Arena := do
  let cell ← arena.read id
  match cell.head with
  | none => .error (.fault (.commitWithoutValue id))
  | some value =>
      (arena.addNode ⟨value, cell.newest⟩).modify id fun cell =>
        { cell with newest := some arena.nodes.size }

def reset (arena : Arena) (id : HistoryId) : Except Breach Arena := arena.put id .blank

/-- The values from a node on, newest first, in at most as many steps as there is fuel. -/
def values (nodes : Array Node) : Nat → Option Nat → Except Breach (List Int)
  | _, none => .ok []
  | 0, some _ => .error .endless
  | fuel + 1, some index =>
      match nodes[index]? with
      | none => .error (.fault (.outOfBounds index nodes.size))
      | some node => (values nodes fuel node.older).map fun older => node.value :: older

/-- A chain is never longer than there are nodes. -/
def committed (arena : Arena) (id : HistoryId) : Except Breach (List Int) := do
  let cell ← arena.read id
  values arena.nodes arena.nodes.size cell.newest

/-- Runs one instruction. As in `Memory.perform`, `position` is the index of a character of a string
or -1, so that `position + offset` stays within a signed machine word. -/
def perform (arena : Arena) (position : Int) : Instruction → Except Breach Arena
  | .set id offset => arena.set id (position + offset)
  | .copy target source => arena.copy target source
  | .commitStart id => arena.commit id
  | .commitEnd id => arena.commit id
  | .reset id => arena.reset id

def performAll (arena : Arena) (position : Int) : List Instruction → Except Breach Arena
  | [] => .ok arena
  | instruction :: rest => do
      let arena ← arena.perform position instruction
      arena.performAll position rest

/-! ### Chains -/

/-- These are the values from a node on. Every node links to one that was there before it, so that
a chain comes to an end. -/
inductive Chain (nodes : Array Node) : Nat → Option Nat → List Int → Prop where
  | nil (bound : Nat) : Chain nodes bound none []
  | cons {bound index : Nat} {node : Node} {older : List Int} (below : index < bound)
      (here : nodes[index]? = some node) (chain : Chain nodes index node.older older) :
      Chain nodes bound (some index) (node.value :: older)

/-- Nodes that are added leave the chains as they are. -/
theorem Chain.push {nodes : Array Node} {bound : Nat} {newest : Option Nat} {committed : List Int}
    (chain : Chain nodes bound newest committed) (node : Node) :
    Chain (nodes.push node) bound newest committed := by
  induction chain with
  | nil bound => exact .nil bound
  | @cons bound index node older below here chain ih =>
    refine .cons below ?_ ih
    have inside : index ≠ nodes.size := by
      rintro rfl
      simp at here
    rwa [Array.getElem?_push, if_neg inside]

theorem Chain.mono {nodes : Array Node} {bound later : Nat} {newest : Option Nat}
    {committed : List Int} (chain : Chain nodes bound newest committed) (le : bound ≤ later) :
    Chain nodes later newest committed := by
  cases chain with
  | nil => exact .nil later
  | cons below here chain => exact .cons (Nat.lt_of_lt_of_le below le) here chain

theorem Chain.values_eq {nodes : Array Node} {bound fuel : Nat} {newest : Option Nat}
    {committed : List Int} (chain : Chain nodes bound newest committed) (enough : bound ≤ fuel) :
    values nodes fuel newest = .ok committed := by
  induction chain generalizing fuel with
  | nil bound =>
    cases fuel <;> rfl
  | @cons bound index node older below here chain ih =>
    cases fuel with
    | zero => omega
    | succ fuel =>
      rw [values, here]
      dsimp only
      rw [ih (by omega)]
      rfl

/-! ### Memories and arenas -/

/-- A cell stands for a history. -/
structure Shares (nodes : Array Node) (cell : Cell) (history : History) : Prop where
  head : cell.head = history.head
  chain : Chain nodes nodes.size cell.newest history.committed

theorem shares_blank (nodes : Array Node) : Shares nodes .blank .blank := ⟨rfl, .nil _⟩

theorem Shares.push {nodes : Array Node} {cell : Cell} {history : History}
    (shares : Shares nodes cell history) (node : Node) :
    Shares (nodes.push node) cell history :=
  ⟨shares.head, (shares.chain.push node).mono (by simp)⟩

/-- An arena has the histories of a memory, under the same names. -/
def Represents (arena : Arena) (memory : Memory) : Prop :=
  ∀ id, Option.Rel (Shares arena.nodes) (arena.get? id) (memory.get? id)

theorem Represents.cases {arena : Arena} {memory : Memory} (represents : arena.Represents memory)
    (id : HistoryId) :
    arena.get? id = none ∧ memory.get? id = none ∨
      ∃ cell history, arena.get? id = some cell ∧ memory.get? id = some history ∧
        Shares arena.nodes cell history := by
  have here := represents id
  generalize arena.get? id = cell at here
  generalize memory.get? id = history at here
  cases here with
  | none => exact Or.inl ⟨rfl, rfl⟩
  | some shares => exact Or.inr ⟨_, _, rfl, rfl, shares⟩

theorem put_spec (arena : Arena) (id : HistoryId) (cell : Cell) :
    ∃ after, arena.put id cell = .ok after ∧ after.nodes = arena.nodes ∧
      ∀ other, after.get? other = if other = id then some cell else arena.get? other := by
  unfold put
  extract_lets slots
  have within : id.index < slots.size := by
    simp only [slots, Array.size_append, Array.size_replicate]
    omega
  have grown (index : Nat) : slots[index]?.join = arena.slots[index]?.join := by
    rw [Array.getElem?_append, Array.getElem?_replicate]
    split
    · rfl
    · rename_i beyond
      rw [Array.getElem?_eq_none (by omega)]
      split <;> rfl
  refine ⟨{ arena with slots := slots.set id.index (some cell) }, dif_pos within, rfl, ?_⟩
  intro other
  rw [get?, Array.getElem?_set within]
  by_cases same : other = id
  · rw [if_pos same, if_pos (by rw [same])]
    rfl
  · have distinct : ¬ id.index = other.index := fun equal => same (by
      cases id
      cases other
      exact congrArg HistoryId.mk equal.symm)
    rw [if_neg same, if_neg distinct, grown]
    rfl

theorem Represents.put {arena : Arena} {memory : Memory} (represents : arena.Represents memory)
    (id : HistoryId) {cell : Cell} {history : History} (shares : Shares arena.nodes cell history) :
    Refines Represents (arena.put id cell) (.ok (memory.put id history)) := by
  obtain ⟨after, success, same, found⟩ := put_spec arena id cell
  rw [success]
  refine .gives fun other => ?_
  rw [found, Memory.get?_put, same]
  split
  · exact .some shares
  · exact represents other

theorem Represents.set {arena : Arena} {memory : Memory} (represents : arena.Represents memory)
    (id : HistoryId) (value : Int) :
    Refines Represents (arena.set id value) (memory.set id value) := by
  unfold Arena.set modify Memory.set
  obtain ⟨missing, absent⟩ | ⟨cell, history, found, present, shares⟩ := represents.cases id
  · rw [missing, absent]
    exact .refuses _
  · rw [found, present]
    exact represents.put id ⟨rfl, shares.chain⟩

theorem Represents.copy {arena : Arena} {memory : Memory} (represents : arena.Represents memory)
    (target source : HistoryId) :
    Refines Represents (arena.copy target source) (memory.copy target source) := by
  unfold Arena.copy Arena.read Memory.copy Memory.read
  obtain ⟨missing, absent⟩ | ⟨cell, history, found, present, shares⟩ := represents.cases source
  · rw [missing, absent]
    exact .refuses _
  · rw [found, present]
    exact represents.put target shares

theorem Represents.addNode {arena : Arena} {memory : Memory} (represents : arena.Represents memory)
    (node : Node) : (arena.addNode node).Represents memory := by
  intro id
  obtain ⟨missing, absent⟩ | ⟨cell, history, found, present, shares⟩ := represents.cases id
  · rw [absent, show (arena.addNode node).get? id = none from missing]
    exact .none
  · rw [present, show (arena.addNode node).get? id = some cell from found]
    exact .some (shares.push node)

theorem Represents.commit {arena : Arena} {memory : Memory} (represents : arena.Represents memory)
    (id : HistoryId) : Refines Represents (arena.commit id) (memory.commit id) := by
  unfold Arena.commit Arena.read Memory.commit Memory.read
  obtain ⟨missing, absent⟩ | ⟨cell, ⟨head, committed⟩, found, present, shares⟩ :=
    represents.cases id
  · rw [missing, absent]
    exact .refuses _
  · rw [found, present]
    obtain ⟨same, chain⟩ := shares
    dsimp only [bind, Except.bind]
    rw [same]
    cases head with
    | none => exact .refuses _
    | some value =>
      dsimp only
      have node : (arena.nodes.push ⟨value, cell.newest⟩)[arena.nodes.size]? =
          some ⟨value, cell.newest⟩ := Array.getElem?_push_size
      -- The new node links to the node that was the newest, below its own index.
      have longer : Shares (arena.addNode ⟨value, cell.newest⟩).nodes
          { cell with newest := some arena.nodes.size } ⟨some value, value :: committed⟩ :=
        ⟨same, .cons (by simp [Arena.addNode]) node (chain.push _)⟩
      rw [modify, show (arena.addNode ⟨value, cell.newest⟩).get? id = some cell from found]
      exact (represents.addNode _).put id longer

theorem Represents.perform {arena : Arena} {memory : Memory} (represents : arena.Represents memory)
    (position : Int) (instruction : Instruction) :
    Refines Represents (arena.perform position instruction)
      (memory.perform position instruction) := by
  cases instruction with
  | set id offset => exact represents.set id (position + offset)
  | copy target source => exact represents.copy target source
  | commitStart id => exact represents.commit id
  | commitEnd id => exact represents.commit id
  | reset id => exact represents.put id (shares_blank arena.nodes)

theorem Represents.performAll {arena : Arena} {memory : Memory}
    (represents : arena.Represents memory) (position : Int) (instructions : List Instruction) :
    Refines Represents (arena.performAll position instructions)
      (memory.performAll position instructions) := by
  induction instructions generalizing arena memory with
  | nil => exact .gives represents
  | cons instruction rest ih =>
    have first := represents.perform position instruction
    rw [Arena.performAll, Memory.performAll]
    generalize arena.perform position instruction = checked at first
    generalize memory.perform position instruction = plain at first
    cases first with
    | refuses fault => exact .refuses fault
    | gives fit => exact ih fit

theorem Represents.committed {arena : Arena} {memory : Memory}
    (represents : arena.Represents memory) (id : HistoryId) :
    arena.committed id = guarded (memory.committed id) := by
  unfold Arena.committed Arena.read Memory.committed Memory.read
  obtain ⟨missing, absent⟩ | ⟨cell, history, found, present, shares⟩ := represents.cases id
  · rw [missing, absent]
    rfl
  · rw [found, present]
    exact shares.chain.values_eq (Nat.le_refl _)

theorem ofBlank_refines (ids : List HistoryId) :
    Refines Represents (ofBlank ids) (.ok (Memory.ofBlank ids)) := by
  suffices general : ∀ (ids : List HistoryId) (arena : Arena) (memory : Memory),
      arena.Represents memory →
      Refines Represents (ids.foldlM (fun arena id => arena.put id .blank) arena)
        (.ok (ids.foldl (fun memory id => memory.put id .blank) memory)) from
    general ids ⟨#[], #[]⟩ ⟨[]⟩ fun id => .none
  intro ids
  induction ids with
  | nil => exact fun arena memory represents => .gives represents
  | cons id rest ih =>
    intro arena memory represents
    rw [List.foldlM_cons, List.foldl_cons]
    have first := represents.put id (shares_blank arena.nodes)
    generalize arena.put id .blank = checked at first
    cases first with
    | gives fit => exact ih _ _ fit

end Arena

end TaggedRegex
