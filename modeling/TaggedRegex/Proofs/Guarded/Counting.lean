import TaggedRegex.Proofs.Automaton.Groups

set_option autoImplicit false

/-!
The groups numbered by a counter of their own, which starts at 1 and goes up whenever a group opens.
It always equals the number of groups declared so far, so the automaton is the same.
-/

namespace TaggedRegex

/-- An automaton under construction, and the number of the next group. -/
structure Counting where
  builder : Builder
  next : Nat

namespace Counting

/-- Changes the builder and leaves the counter alone. -/
def edit (counting : Counting) (change : Builder → Builder) : Counting :=
  { counting with builder := change counting.builder }

def state (counting : Counting) : Except Fault (StateId × Counting) := do
  let (state, builder) ← counting.builder.state
  return (state, { counting with builder })

def twoStates (counting : Counting) : Except Fault (StateId × StateId × Counting) := do
  let (first, last, builder) ← counting.builder.twoStates
  return (first, last, { counting with builder })

def declareGroup (counting : Counting) (group : Group) : Except Fault Counting := do
  let builder ← counting.builder.declareGroup group
  return { counting with builder }

/-- Lays out a body between two new states and the tags of a group around it. -/
def tagged (counting : Counting) (number : Nat) (head tail : StateId)
    (body : Counting → StateId → StateId → Except Fault Counting) : Except Fault Counting := do
  let (first, last, counting) ← counting.twoStates
  let opened := counting.edit fun builder =>
    builder.connect head .epsilon first .normal (some ⟨number, .opening⟩)
  let inner ← body opened first last
  return inner.edit fun builder =>
    builder.connect last .epsilon tail .normal (some ⟨number, .closing⟩)

mutual

/-- Lays out an expression. A group takes the number on the counter, which goes up before anything
inside the group is laid out. -/
def addRegex (counting : Counting) (head tail : StateId) (parent : Nat) :
    Regex → Except Fault Counting
  | .any => .ok (counting.edit fun builder => builder.readRange head tail .all)
  | .lit c => .ok (counting.edit fun builder => builder.readRange head tail (.single c))
  | .set ranges => .ok (counting.edit fun builder =>
      ranges.foldl (fun builder range => builder.readRange head tail range) builder)
  | .atEnd => .ok (counting.edit fun builder => builder.connect head .atEnd tail .normal none)
  | .group body => do
      let number := counting.next
      let counting := { counting with next := counting.next + 1 }
      let counting ← counting.declareGroup (← Group.inside number parent)
      counting.tagged number head tail fun counting first last =>
        counting.addRegex first last number body
  | .rep quantifier greed body => do
      let (first, last, counting) ← counting.twoStates
      let counting ← counting.addRegex first last parent body
      return counting.edit fun builder => builder.repetition quantifier greed head first last tail
  | .alt branches => counting.addBranches head tail parent .normal branches
  | .cat items => counting.addItems head tail parent items

/-- Lays out alternatives. -/
def addBranches (counting : Counting) (head tail : StateId) (parent : Nat) (priority : Priority) :
    List Regex → Except Fault Counting
  | [] => .ok counting
  | branch :: rest => do
      let (first, last, counting) ← counting.twoStates
      let counting ← counting.addRegex first last parent branch
      let counting := counting.edit fun builder =>
        (builder.epsilon head first priority).epsilon last tail .normal
      counting.addBranches head tail parent .low rest

/-- Lays out expressions one behind the other. -/
def addItems (counting : Counting) (head tail : StateId) (parent : Nat) :
    List Regex → Except Fault Counting
  | [] => .ok (counting.edit fun builder => builder.epsilon head tail .normal)
  | [last] => counting.addRegex head tail parent last
  | item :: next :: rest => do
      let (middle, counting) ← counting.state
      let counting ← counting.addRegex head middle parent item
      counting.addItems middle tail parent (next :: rest)

end

end Counting

/-- The counter that belongs to a builder: the groups so far are those below it. -/
def Builder.counted (builder : Builder) : Counting := ⟨builder, builder.groups.length⟩

namespace Counting

variable {builder : Builder}

theorem counted_edit (builder : Builder) (change : Builder → Builder)
    (same : (change builder).groups = builder.groups) :
    builder.counted.edit change = (change builder).counted := by
  unfold edit Builder.counted
  rw [same]

theorem counted_state (builder : Builder) :
    builder.counted.state = builder.state.map fun (state, after) => (state, after.counted) := by
  unfold state Builder.counted
  cases taken : builder.state with
  | error fault => rfl
  | ok result =>
    obtain ⟨state, after⟩ := result
    show Except.ok _ = Except.ok (state, after.counted)
    rw [Builder.counted, Builder.groups_of_state taken]

theorem counted_twoStates (builder : Builder) :
    builder.counted.twoStates =
      builder.twoStates.map fun (first, last, after) => (first, last, after.counted) := by
  unfold twoStates Builder.counted
  cases taken : builder.twoStates with
  | error fault => rfl
  | ok result =>
    obtain ⟨first, last, after⟩ := result
    show Except.ok _ = Except.ok (first, last, after.counted)
    rw [Builder.counted, Builder.groups_of_twoStates taken]

/-- The counter goes up by one as a group is declared. -/
theorem counted_declareGroup (builder : Builder) (group : Group) :
    declareGroup ⟨builder, builder.groups.length + 1⟩ group =
      (builder.declareGroup group).map Builder.counted := by
  unfold declareGroup Builder.declareGroup
  split
  · rfl
  · show Except.ok _ = Except.ok _
    rw [Builder.counted, (group.perm_insertInto builder.groups).length_eq, List.length_cons]

/-- Steps that correspond under `keep` go on to steps that correspond. -/
theorem bind_map_congr {α α' β β' : Type} {outcome : Except Fault α} {before : α → α'}
    {after : β → β'} {counted : α' → Except Fault β'} {plain : α → Except Fault β}
    (same : ∀ value, counted (before value) = (plain value).map after) :
    (outcome.map before >>= counted) = (outcome >>= plain).map after := by
  cases outcome with
  | error fault => rfl
  | ok value => exact same value

/-- What a body does with a counter is what it does without. -/
theorem counted_tagged {number : Nat} {head tail : StateId}
    {body : Builder → StateId → StateId → Except Fault Builder}
    {countedBody : Counting → StateId → StateId → Except Fault Counting}
    (same : ∀ (builder : Builder) (first last : StateId),
      countedBody builder.counted first last = (body builder first last).map Builder.counted) :
    builder.counted.tagged number head tail countedBody =
      (builder.tagged number head tail body).map Builder.counted := by
  unfold tagged Builder.tagged
  rw [counted_twoStates]
  refine bind_map_congr fun (first, last, start) => ?_
  show (countedBody (start.connect head .epsilon first .normal _).counted first last >>= _) = _
  rw [same]
  exact bind_map_congr fun inner => rfl

mutual

/-- With the counter at the number of groups, an expression is laid out as without a counter. -/
theorem counted_addRegex (regex : Regex) (builder : Builder) (head tail : StateId)
    (parent : Nat) : builder.counted.addRegex head tail parent regex =
      (builder.addRegex head tail parent regex).map Builder.counted := by
  cases regex with
  | any | lit | atEnd =>
    rw [addRegex, Builder.addRegex]
    rfl
  | set ranges =>
    rw [addRegex, Builder.addRegex]
    exact congrArg Except.ok (counted_edit builder _ (Builder.groups_readRanges ..))
  | group body =>
    rw [addRegex, Builder.addRegex]
    show (Group.inside builder.groups.length parent >>= _) =
      Except.map _ (Group.inside builder.groups.length parent >>= _)
    cases Group.inside builder.groups.length parent with
    | error fault => rfl
    | ok group =>
      show (declareGroup ⟨builder, builder.groups.length + 1⟩ group >>= _) = _
      rw [counted_declareGroup]
      refine bind_map_congr fun declared => counted_tagged ?_
      exact fun inner first last => counted_addRegex body inner first last _
  | rep quantifier greed body =>
    rw [addRegex, Builder.addRegex, counted_twoStates]
    refine bind_map_congr fun (first, last, start) => ?_
    show (start.counted.addRegex first last parent body >>= _) = _
    rw [counted_addRegex body]
    refine bind_map_congr fun inner => ?_
    exact congrArg Except.ok (counted_edit inner _ (inner.groups_repetition ..))
  | alt branches =>
    rw [addRegex, Builder.addRegex]
    exact counted_addBranches branches ..
  | cat items =>
    rw [addRegex, Builder.addRegex]
    exact counted_addItems items ..

theorem counted_addBranches (branches : List Regex) (builder : Builder) (head tail : StateId)
    (parent : Nat) (priority : Priority) :
    builder.counted.addBranches head tail parent priority branches =
      (builder.addBranches head tail parent priority branches).map Builder.counted := by
  cases branches with
  | nil =>
    rw [addBranches, Builder.addBranches]
    rfl
  | cons branch rest =>
    rw [addBranches, Builder.addBranches, counted_twoStates]
    refine bind_map_congr fun (first, last, start) => ?_
    show (start.counted.addRegex first last parent branch >>= _) = _
    rw [counted_addRegex branch]
    exact bind_map_congr fun middle => counted_addBranches rest ..

theorem counted_addItems (items : List Regex) (builder : Builder) (head tail : StateId)
    (parent : Nat) : builder.counted.addItems head tail parent items =
      (builder.addItems head tail parent items).map Builder.counted := by
  match items with
  | [] =>
    rw [addItems, Builder.addItems]
    rfl
  | [last] =>
    rw [addItems, Builder.addItems]
    exact counted_addRegex last ..
  | item :: next :: rest =>
    rw [addItems, Builder.addItems, counted_state]
    refine bind_map_congr fun (middle, start) => ?_
    show (start.counted.addRegex head middle parent item >>= _) = _
    rw [counted_addRegex item]
    exact bind_map_congr fun after => counted_addItems (next :: rest) ..

end

end Counting

end TaggedRegex
