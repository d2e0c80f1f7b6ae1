import TaggedRegex.Proofs.Automaton.Layout

set_option autoImplicit false

/-!
At which states an expression lies. States are handed out one after the other, so where an
expression is laid out, and how many states it takes up, is known beforehand.
-/

namespace TaggedRegex

namespace Regex

mutual

/-- The number of states that an expression takes up, not counting the two between which it lies. -/
def breadth : Regex → Nat
  | .any | .lit _ | .set _ | .atEnd => 0
  | .group body => body.breadth + 2
  | .rep _ _ body => body.breadth + 2
  | .alt branches => branchesBreadth branches
  | .cat items => itemsBreadth items

def branchesBreadth : List Regex → Nat
  | [] => 0
  | branch :: rest => branch.breadth + 2 + branchesBreadth rest

def itemsBreadth : List Regex → Nat
  | [] => 0
  | [last] => last.breadth
  | item :: next :: rest => item.breadth + 1 + itemsBreadth (next :: rest)

end

/-- The arms with which alternatives begin whose states are handed out from `next` on. -/
def branchArms (next : Nat) (priority : Priority) : List Regex → List Arm
  | [] => []
  | branch :: rest =>
      .epsilon ⟨next⟩ priority :: branchArms (next + (branch.breadth + 2)) .low rest

end Regex

namespace Plan

mutual

/-- The expression lies between `head` and `tail`, and otherwise at the states from `next` on, in
the order in which they are handed out; its groups are numbered from `number` on. -/
def Lies (plan : Plan) (number next : Nat) (head tail : StateId) : Regex → Prop
  | .any => plan.Leaves head [.read .all tail]
  | .lit c => plan.Leaves head [.read (.single c) tail]
  | .set ranges => plan.Leaves head (ranges.map fun range => .read range tail)
  | .atEnd => plan.Leaves head [⟨.atEnd, tail, .normal, none⟩]
  | .group body =>
      plan.Leaves head [.cross ⟨next⟩ ⟨number, .opening⟩] ∧
      plan.Lies (number + 1) (next + 2) ⟨next⟩ ⟨next + 1⟩ body ∧
      plan.Leaves ⟨next + 1⟩ [.cross tail ⟨number, .closing⟩]
  | .rep quantifier greed body =>
      plan.Leaves head (quantifier.headArms greed ⟨next⟩ tail) ∧
      plan.Lies number (next + 2) ⟨next⟩ ⟨next + 1⟩ body ∧
      plan.Leaves ⟨next + 1⟩ (quantifier.lastArms greed ⟨next⟩ tail)
  | .alt branches =>
      plan.Leaves head (Regex.branchArms next .normal branches) ∧
      plan.LiesBranches number next tail branches
  | .cat items => plan.LiesItems number next head tail items

/-- Each branch lies between two states of its own and leads to `tail`. -/
def LiesBranches (plan : Plan) (number next : Nat) (tail : StateId) : List Regex → Prop
  | [] => True
  | branch :: rest =>
      plan.Lies number (next + 2) ⟨next⟩ ⟨next + 1⟩ branch ∧
      plan.Leaves ⟨next + 1⟩ [.epsilon tail .normal] ∧
      plan.LiesBranches (number + branch.groupCount) (next + (branch.breadth + 2)) tail rest

/-- The expressions lie one behind the other. -/
def LiesItems (plan : Plan) (number next : Nat) (head tail : StateId) : List Regex → Prop
  | [] => plan.Leaves head [.epsilon tail .normal]
  | [last] => plan.Lies number next head tail last
  | item :: second :: rest =>
      plan.Lies number (next + 1) head ⟨next⟩ item ∧
      plan.LiesItems (number + item.groupCount) (next + (item.breadth + 1)) ⟨next⟩ tail
        (second :: rest)

end

variable {plan : Plan}

mutual

/-- An expression that lies at known states is laid out. -/
theorem Lies.lays : (regex : Regex) → {number next : Nat} → {head tail : StateId} →
    plan.Lies number next head tail regex → plan.Lays number head tail regex
  | .any, _, _, _, _, lies => lies
  | .lit _, _, _, _, _, lies => lies
  | .set _, _, _, _, _, lies => lies
  | .atEnd, _, _, _, _, lies => lies
  | .group body, _, _, _, _, ⟨opens, inside, closes⟩ =>
    ⟨_, _, opens, Lies.lays body inside, closes⟩
  | .rep _ _ body, _, _, _, _, ⟨enters, inside, leaves⟩ =>
    ⟨_, _, enters, Lies.lays body inside, leaves⟩
  | .alt branches, _, _, _, _, ⟨leaves, inside⟩ =>
    ⟨_, leaves, LiesBranches.lays branches .normal inside⟩
  | .cat items, _, _, _, _, lies => LiesItems.lays items lies

theorem LiesBranches.lays : (branches : List Regex) → {number next : Nat} → {tail : StateId} →
    (priority : Priority) → plan.LiesBranches number next tail branches →
    plan.LaysBranches number tail priority (Regex.branchArms next priority branches) branches
  | [], _, _, _, _, _ => rfl
  | branch :: rest, _, _, _, _, ⟨here, leaves, others⟩ =>
    ⟨_, _, _, rfl, Lies.lays branch here, leaves, LiesBranches.lays rest .low others⟩

theorem LiesItems.lays : (items : List Regex) → {number next : Nat} → {head tail : StateId} →
    plan.LiesItems number next head tail items → plan.LaysItems number head tail items
  | [], _, _, _, _, lies => lies
  | [last], _, _, _, _, lies => Lies.lays last lies
  | item :: second :: rest, _, _, _, _, ⟨here, others⟩ =>
    ⟨_, Lies.lays item here, LiesItems.lays (second :: rest) others⟩

end

end Plan

namespace Builder

variable {before after : Builder} {head tail : StateId} {parent : Nat}

theorem issued_of_twoStates {first last : StateId}
    (success : before.twoStates = .ok (first, last, after)) :
    after.states.issued = before.states.issued + 2 := by
  rw [twoStates_eq_ok success]

theorem issued_of_state {state : StateId} (success : before.state = .ok (state, after)) :
    after.states.issued = before.states.issued + 1 := by
  rw [state_eq_ok success]

theorem states_of_declareGroup {group : Group} (success : before.declareGroup group = .ok after) :
    after.states = before.states := by
  rw [declareGroup_eq_ok success]

theorem states_repetition (builder : Builder) (quantifier : Quantifier) (greed : Greed)
    (head first last tail : StateId) :
    (builder.repetition quantifier greed head first last tail).states = builder.states := by
  cases quantifier <;> rfl

theorem states_readRanges (ranges : List CharRange) (builder : Builder) (head tail : StateId) :
    (ranges.foldl (fun builder range => builder.readRange head tail range) builder).states =
      builder.states := by
  induction ranges generalizing builder with
  | nil => rfl
  | cons range rest ih =>
    rw [List.foldl_cons, ih]
    rfl

/-- A group takes two states besides those of its body. -/
theorem issued_of_tagged {number width : Nat}
    {body : Builder → StateId → StateId → Except Fault Builder}
    (inside : ∀ {start finish : Builder} {first last : StateId},
      body start first last = .ok finish → finish.states.issued = start.states.issued + width)
    (success : before.tagged number head tail body = .ok after) :
    after.states.issued = before.states.issued + (width + 2) := by
  obtain ⟨⟨first, last, start⟩, fresh, success⟩ := Fault.of_bind_eq_ok success
  obtain ⟨finish, done, success⟩ := Fault.of_bind_eq_ok success
  cases success
  have taken := issued_of_twoStates fresh
  have laid := inside done
  change finish.states.issued = start.states.issued + width at laid
  show finish.states.issued = _
  omega

mutual

/-- Laying out an expression takes as many states as the expression is broad. -/
theorem issued_of_addRegex (regex : Regex) {before after : Builder} {head tail : StateId}
    {parent : Nat} (success : before.addRegex head tail parent regex = .ok after) :
    after.states.issued = before.states.issued + regex.breadth := by
  cases regex with
  | any | lit | atEnd =>
    rw [addRegex] at success
    cases success
    rfl
  | set ranges =>
    rw [addRegex] at success
    cases success
    rw [states_readRanges]
    rfl
  | group body =>
    rw [addRegex] at success
    obtain ⟨group, -, success⟩ := Fault.of_bind_eq_ok success
    obtain ⟨start, declared, success⟩ := Fault.of_bind_eq_ok success
    rw [← states_of_declareGroup declared]
    exact issued_of_tagged (fun done => issued_of_addRegex body done) success
  | rep quantifier greed body =>
    rw [addRegex] at success
    obtain ⟨⟨first, last, start⟩, fresh, success⟩ := Fault.of_bind_eq_ok success
    obtain ⟨finish, done, success⟩ := Fault.of_bind_eq_ok success
    cases success
    have taken := issued_of_twoStates fresh
    have laid := issued_of_addRegex body done
    rw [states_repetition, Regex.breadth]
    omega
  | alt branches =>
    rw [addRegex] at success
    exact issued_of_addBranches branches success
  | cat items =>
    rw [addRegex] at success
    exact issued_of_addItems items success

theorem issued_of_addBranches (branches : List Regex) {before after : Builder}
    {head tail : StateId} {parent : Nat} {priority : Priority}
    (success : before.addBranches head tail parent priority branches = .ok after) :
    after.states.issued = before.states.issued + Regex.branchesBreadth branches := by
  cases branches with
  | nil =>
    rw [addBranches] at success
    cases success
    rfl
  | cons branch rest =>
    rw [addBranches] at success
    obtain ⟨⟨first, last, start⟩, fresh, success⟩ := Fault.of_bind_eq_ok success
    obtain ⟨middle, done, success⟩ := Fault.of_bind_eq_ok success
    have taken := issued_of_twoStates fresh
    have laid := issued_of_addRegex branch done
    have others := issued_of_addBranches rest success
    change after.states.issued = middle.states.issued + Regex.branchesBreadth rest at others
    rw [Regex.branchesBreadth]
    omega

theorem issued_of_addItems (items : List Regex) {before after : Builder} {head tail : StateId}
    {parent : Nat} (success : before.addItems head tail parent items = .ok after) :
    after.states.issued = before.states.issued + Regex.itemsBreadth items := by
  cases items with
  | nil =>
    rw [addItems] at success
    cases success
    rfl
  | cons item others =>
    cases others with
    | nil =>
      rw [addItems] at success
      exact issued_of_addRegex item success
    | cons next rest =>
      rw [addItems] at success
      obtain ⟨⟨state, start⟩, fresh, success⟩ := Fault.of_bind_eq_ok success
      obtain ⟨middle, done, success⟩ := Fault.of_bind_eq_ok success
      have taken := issued_of_state fresh
      have laid := issued_of_addRegex item done
      have others := issued_of_addItems (next :: rest) success
      rw [Regex.itemsBreadth]
      omega

end

end Builder

end TaggedRegex
