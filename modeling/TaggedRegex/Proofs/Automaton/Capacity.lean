import TaggedRegex.Proofs.Automaton.Anchored

set_option autoImplicit false

/-!
What every operation keeps on the way to the automaton of an expression holds of the whole way. One
use of this is that names are handed out below the limit only, so that there is an automaton exactly
if the states it takes are not too many.
-/

namespace TaggedRegex

/-- What comes to an error has come to it at one of the steps. -/
theorem Fault.of_bind_eq_error {α β : Type} {outcome : Except Fault α} {next : α → Except Fault β}
    {fault : Fault} (failed : outcome >>= next = .error fault) :
    outcome = .error fault ∨ ∃ value, outcome = .ok value ∧ next value = .error fault := by
  cases outcome with
  | error other => exact Or.inl (congrArg Except.error (Except.error.inj failed))
  | ok value => exact Or.inr ⟨value, rfl, failed⟩

namespace Builder

/-- A relation that holds across every operation by which an expression is laid out, a group with
both its tags counting as one. Only edges with nothing to ask of the input may be low. -/
structure Carried (R : Builder → Builder → Prop) : Prop where
  refl (builder : Builder) : R builder builder
  trans {first second third : Builder} : R first second → R second third → R first third
  state {before after : Builder} {fresh : StateId} :
    before.state = .ok (fresh, after) → R before after
  connect (builder : Builder) (source : StateId) (label : Label) (target : StateId)
    (priority : Priority) : (priority = .low → label = .epsilon) →
    R builder (builder.connect source label target priority none)
  group {before declared stocked inner : Builder} {group : Group}
    {head first last tail : StateId} :
    before.declareGroup group = .ok declared → declared.twoStates = .ok (first, last, stocked) →
    R (stocked.connect head .epsilon first .normal (some group.startTag)) inner →
    R before (inner.connect last .epsilon tail .normal (some group.endTag))

namespace Carried

variable {R : Builder → Builder → Prop}

theorem twoStates (carried : Carried R) {before after : Builder} {first last : StateId}
    (success : before.twoStates = .ok (first, last, after)) : R before after := by
  obtain ⟨⟨state, middle⟩, taken, success⟩ := Fault.of_bind_eq_ok success
  obtain ⟨⟨other, finish⟩, takenAgain, success⟩ := Fault.of_bind_eq_ok success
  cases success
  exact carried.trans (carried.state taken) (carried.state takenAgain)

theorem repetition (carried : Carried R) (builder : Builder) (quantifier : Quantifier)
    (greed : Greed) (head first last tail : StateId) :
    R builder (builder.repetition quantifier greed head first last tail) := by
  have step : ∀ (builder : Builder) (source target : StateId) (priority : Priority),
      R builder (builder.epsilon source target priority) :=
    fun builder source target priority =>
      carried.connect builder source .epsilon target priority fun _ => rfl
  cases quantifier with
  | star =>
    exact carried.trans (step ..) (carried.trans (step ..) (carried.trans (step ..) (step ..)))
  | plus => exact carried.trans (step ..) (carried.trans (step ..) (step ..))
  | opt => exact carried.trans (step ..) (carried.trans (step ..) (step ..))

theorem readRanges (carried : Carried R) (ranges : List CharRange) (builder : Builder)
    (head tail : StateId) :
    R builder (ranges.foldl (fun builder range => builder.readRange head tail range) builder) := by
  induction ranges generalizing builder with
  | nil => exact carried.refl builder
  | cons range rest ih =>
    exact carried.trans (carried.connect builder head (.chars range) tail .normal nofun) (ih _)

mutual

/-- What is kept by the operations is kept while an expression is laid out. -/
theorem addRegex (carried : Carried R) (regex : Regex) {before after : Builder}
    {head tail : StateId} {parent : Nat}
    (success : before.addRegex head tail parent regex = .ok after) : R before after := by
  cases regex with
  | any | lit | atEnd =>
    rw [Builder.addRegex] at success
    cases success
    exact carried.connect _ _ _ _ _ nofun
  | set ranges =>
    rw [Builder.addRegex] at success
    cases success
    exact carried.readRanges ranges before head tail
  | group body =>
    rw [Builder.addRegex] at success
    obtain ⟨group, inside, success⟩ := Fault.of_bind_eq_ok success
    obtain rfl := Group.inside_eq_ok inside
    obtain ⟨declared, declares, laid⟩ := Fault.of_bind_eq_ok success
    obtain ⟨⟨first, last, stocked⟩, fresh, laid⟩ := Fault.of_bind_eq_ok laid
    obtain ⟨inner, done, laid⟩ := Fault.of_bind_eq_ok laid
    cases laid
    exact carried.group declares fresh (addRegex carried body done)
  | rep quantifier greed body =>
    rw [Builder.addRegex] at success
    obtain ⟨⟨first, last, start⟩, fresh, success⟩ := Fault.of_bind_eq_ok success
    obtain ⟨finish, done, success⟩ := Fault.of_bind_eq_ok success
    cases success
    exact carried.trans (carried.twoStates fresh)
      (carried.trans (addRegex carried body done) (carried.repetition ..))
  | alt branches =>
    rw [Builder.addRegex] at success
    exact addBranches carried branches success
  | cat items =>
    rw [Builder.addRegex] at success
    exact addItems carried items success

theorem addBranches (carried : Carried R) (branches : List Regex) {before after : Builder}
    {head tail : StateId} {parent : Nat} {priority : Priority}
    (success : before.addBranches head tail parent priority branches = .ok after) :
    R before after := by
  cases branches with
  | nil =>
    rw [Builder.addBranches] at success
    cases success
    exact carried.refl _
  | cons branch rest =>
    rw [Builder.addBranches] at success
    obtain ⟨⟨first, last, start⟩, fresh, success⟩ := Fault.of_bind_eq_ok success
    obtain ⟨middle, done, success⟩ := Fault.of_bind_eq_ok success
    have entered : R before middle :=
      carried.trans (carried.twoStates fresh) (addRegex carried branch done)
    exact carried.trans entered (carried.trans (carried.connect _ _ _ _ _ fun _ => rfl)
      (carried.trans (carried.connect _ _ _ _ _ fun _ => rfl) (addBranches carried rest success)))

theorem addItems (carried : Carried R) (items : List Regex) {before after : Builder}
    {head tail : StateId} {parent : Nat}
    (success : before.addItems head tail parent items = .ok after) : R before after := by
  cases items with
  | nil =>
    rw [Builder.addItems] at success
    cases success
    exact carried.connect _ _ _ _ _ fun _ => rfl
  | cons item others =>
    cases others with
    | nil =>
      rw [Builder.addItems] at success
      exact addRegex carried item success
    | cons next rest =>
      rw [Builder.addItems] at success
      obtain ⟨⟨state, start⟩, fresh, success⟩ := Fault.of_bind_eq_ok success
      obtain ⟨middle, done, success⟩ := Fault.of_bind_eq_ok success
      exact carried.trans (carried.state fresh)
        (carried.trans (addRegex carried item done) (addItems carried (next :: rest) success))

end

end Carried

/-- What lies between two builders is kept but for the two tags of group 0. -/
def Spans (R : Builder → Builder → Prop) (before after : Builder) : Prop :=
  ∃ start inner head first last tail, R before start ∧
    R (start.connect head .epsilon first .normal (some Group.entireMatch.startTag)) inner ∧
    R (inner.connect last .epsilon tail .normal (some Group.entireMatch.endTag)) after

theorem Carried.entireMatch {R : Builder → Builder → Prop} (carried : Carried R) {regex : Regex}
    {before after : Builder} {head tail : StateId}
    (success : (before.tagged 0 head tail fun inner first last =>
      inner.addRegex first last 0 regex) = .ok after) : Spans R before after := by
  obtain ⟨⟨first, last, stocked⟩, fresh, success⟩ := Fault.of_bind_eq_ok success
  obtain ⟨inner, done, success⟩ := Fault.of_bind_eq_ok success
  cases success
  exact ⟨stocked, inner, head, first, last, tail, carried.twoStates fresh,
    carried.addRegex regex done, carried.refl _⟩

/-- What the operations keep is kept, but for the two tags of group 0, on the way to the whole
automaton. -/
theorem Carried.automaton {R : Builder → Builder → Prop} (carried : Carried R) {regex : Regex}
    {anchor : Anchor} {automaton : Automaton} (built : regex.automaton anchor = .ok automaton) :
    ∃ after, after.build = .ok automaton ∧ Spans R framed after := by
  cases anchor with
  | full =>
    rw [Regex.automaton_full] at built
    obtain ⟨after, laid, built⟩ := Fault.of_bind_eq_ok built
    exact ⟨after, built, carried.entireMatch laid⟩
  | search =>
    rw [Regex.automaton_search] at built
    obtain ⟨after, laid, built⟩ := Fault.of_bind_eq_ok built
    obtain ⟨front, frontLaid, laid⟩ := Fault.of_bind_eq_ok laid
    obtain ⟨middle, middleLaid, laid⟩ := Fault.of_bind_eq_ok laid
    have framing : R framed framedSearch :=
      carried.twoStates (show framed.twoStates = .ok (⟨2⟩, ⟨3⟩, framedSearch) from rfl)
    obtain ⟨start, inner, head, first, last, tail, early, body, late⟩ :=
      carried.entireMatch middleLaid
    have begun : R framed start :=
      carried.trans framing (carried.trans (carried.addRegex _ frontLaid) early)
    exact ⟨after, built, start, inner, head, first, last, tail, begun, body,
      carried.trans late (carried.addRegex _ laid)⟩

/-! ### Running out of states -/

variable {before after : Builder} {head tail : StateId} {parent : Nat}

theorem limit_of_state (exhausted : before.state = .error .statesExhausted) :
    indexLimit < before.states.issued + 1 := by
  by_contra room
  unfold Builder.state Supply.freshState StateId.ofIndex at exhausted
  rw [if_pos (by omega)] at exhausted
  cases exhausted

theorem limit_of_twoStates (exhausted : before.twoStates = .error .statesExhausted) :
    indexLimit < before.states.issued + 2 := by
  rcases Fault.of_bind_eq_error exhausted with first | ⟨⟨state, middle⟩, taken, second⟩
  · have := limit_of_state first
    omega
  · rcases Fault.of_bind_eq_error second with second | ⟨⟨other, finish⟩, -, none⟩
    · have := limit_of_state second
      have := issued_of_state taken
      omega
    · cases none

/-- Where a group runs out of states, so do the states for its tags or for its body. -/
theorem limit_of_tagged {number width : Nat}
    {body : Builder → StateId → StateId → Except Fault Builder}
    (inside : ∀ {start : Builder} {first last : StateId},
      body start first last = .error .statesExhausted →
        indexLimit < start.states.issued + width)
    (exhausted : before.tagged number head tail body = .error .statesExhausted) :
    indexLimit < before.states.issued + (width + 2) := by
  rcases Fault.of_bind_eq_error exhausted with
    full | ⟨⟨first, last, stocked⟩, fresh, exhausted⟩
  · have := limit_of_twoStates full
    omega
  · rcases Fault.of_bind_eq_error exhausted with full | ⟨inner, -, none⟩
    · have taken := issued_of_twoStates fresh
      have limit := inside full
      change indexLimit < stocked.states.issued + width at limit
      omega
    · cases none

mutual

/-- An expression runs out of states only if it is broader than what is left of them. -/
theorem limit_of_addRegex (regex : Regex) {before : Builder} {head tail : StateId} {parent : Nat}
    (exhausted : before.addRegex head tail parent regex = .error .statesExhausted) :
    indexLimit < before.states.issued + regex.breadth := by
  cases regex with
  | any | lit | atEnd | set =>
    rw [addRegex] at exhausted
    cases exhausted
  | group body =>
    rw [addRegex] at exhausted
    rcases Fault.of_bind_eq_error exhausted with refused | ⟨group, -, exhausted⟩
    · rw [Group.inside] at refused
      split at refused <;> cases refused
    · rcases Fault.of_bind_eq_error exhausted with refused | ⟨declared, declares, exhausted⟩
      · rw [declareGroup] at refused
        split at refused <;> cases refused
      · rw [← states_of_declareGroup declares]
        exact limit_of_tagged (fun full => limit_of_addRegex body full) exhausted
  | rep quantifier greed body =>
    rw [addRegex] at exhausted
    rw [Regex.breadth]
    rcases Fault.of_bind_eq_error exhausted with
      full | ⟨⟨first, last, start⟩, fresh, exhausted⟩
    · have := limit_of_twoStates full
      omega
    · rcases Fault.of_bind_eq_error exhausted with full | ⟨finish, -, none⟩
      · have taken := issued_of_twoStates fresh
        have := limit_of_addRegex body full
        omega
      · cases none
  | alt branches =>
    rw [addRegex] at exhausted
    exact limit_of_addBranches branches exhausted
  | cat items =>
    rw [addRegex] at exhausted
    exact limit_of_addItems items exhausted

theorem limit_of_addBranches (branches : List Regex) {before : Builder} {head tail : StateId}
    {parent : Nat} {priority : Priority}
    (exhausted : before.addBranches head tail parent priority branches =
      .error .statesExhausted) :
    indexLimit < before.states.issued + Regex.branchesBreadth branches := by
  cases branches with
  | nil =>
    rw [addBranches] at exhausted
    cases exhausted
  | cons branch rest =>
    rw [addBranches] at exhausted
    rw [Regex.branchesBreadth]
    rcases Fault.of_bind_eq_error exhausted with
      full | ⟨⟨first, last, start⟩, fresh, exhausted⟩
    · have := limit_of_twoStates full
      omega
    · have taken := issued_of_twoStates fresh
      rcases Fault.of_bind_eq_error exhausted with full | ⟨middle, done, exhausted⟩
      · have := limit_of_addRegex branch full
        omega
      · have laid := issued_of_addRegex branch done
        have limit := limit_of_addBranches rest exhausted
        change indexLimit < middle.states.issued + Regex.branchesBreadth rest at limit
        omega

theorem limit_of_addItems (items : List Regex) {before : Builder} {head tail : StateId}
    {parent : Nat}
    (exhausted : before.addItems head tail parent items = .error .statesExhausted) :
    indexLimit < before.states.issued + Regex.itemsBreadth items := by
  cases items with
  | nil =>
    rw [addItems] at exhausted
    cases exhausted
  | cons item others =>
    cases others with
    | nil =>
      rw [addItems] at exhausted
      exact limit_of_addRegex item exhausted
    | cons next rest =>
      rw [addItems] at exhausted
      rw [Regex.itemsBreadth]
      rcases Fault.of_bind_eq_error exhausted with full | ⟨⟨state, start⟩, fresh, exhausted⟩
      · have := limit_of_state full
        omega
      · have taken := issued_of_state fresh
        rcases Fault.of_bind_eq_error exhausted with full | ⟨middle, done, exhausted⟩
        · have := limit_of_addRegex item full
          omega
        · have laid := issued_of_addRegex item done
          have limit := limit_of_addItems (next :: rest) exhausted
          omega

end

/-- A builder with both distinguished states only refuses to be finished for other reasons. -/
theorem build_ne_exhausted (builder : Builder) : builder.build ≠ .error .statesExhausted := by
  intro exhausted
  unfold build at exhausted
  split at exhausted
  · cases exhausted
  · cases exhausted
  · split at exhausted
    · cases exhausted
    · dsimp only at exhausted
      split at exhausted <;> cases exhausted

/-- The states that the entire match takes are there, or run out. -/
theorem issued_of_entireMatch {regex : Regex}
    (success : (before.tagged 0 head tail fun inner first last =>
      inner.addRegex first last 0 regex) = .ok after) :
    after.states.issued = before.states.issued + (regex.breadth + 2) :=
  issued_of_tagged (fun done => issued_of_addRegex regex done) success

theorem limit_of_entireMatch {regex : Regex}
    (exhausted : (before.tagged 0 head tail fun inner first last =>
      inner.addRegex first last 0 regex) = .error .statesExhausted) :
    indexLimit < before.states.issued + (regex.breadth + 2) :=
  limit_of_tagged (fun full => limit_of_addRegex regex full) exhausted

theorem issued_of_addFiller {greed : Greed}
    (success : before.addFiller head tail greed = .ok after) :
    after.states.issued = before.states.issued + 2 :=
  issued_of_addRegex (.rep .star greed .any) success

theorem limit_of_addFiller {greed : Greed}
    (exhausted : before.addFiller head tail greed = .error .statesExhausted) :
    indexLimit < before.states.issued + 2 :=
  limit_of_addRegex (.rep .star greed .any) exhausted

end Builder

namespace Regex

open Builder

/-- The number of states of the automaton. -/
def stateCount (regex : Regex) : Anchor → Nat
  | .full => regex.breadth + 4
  | .search => regex.breadth + 10

/-- Where the states run out, the automaton would take more than there are. -/
theorem limit_of_automaton {regex : Regex} {anchor : Anchor}
    (exhausted : regex.automaton anchor = .error .statesExhausted) :
    indexLimit < regex.stateCount anchor := by
  cases anchor with
  | full =>
    rw [automaton_full] at exhausted
    rcases Fault.of_bind_eq_error exhausted with full | ⟨after, -, refused⟩
    · have limit := limit_of_entireMatch full
      change indexLimit < 2 + (regex.breadth + 2) at limit
      rw [stateCount]
      omega
    · exact absurd refused (build_ne_exhausted after)
  | search =>
    rw [automaton_search] at exhausted
    rw [stateCount]
    rcases Fault.of_bind_eq_error exhausted with full | ⟨after, -, refused⟩
    · rcases Fault.of_bind_eq_error full with full | ⟨front, frontLaid, full⟩
      · have limit := limit_of_addFiller full
        change indexLimit < 4 + 2 at limit
        omega
      · have taken := issued_of_addFiller frontLaid
        change front.states.issued = 4 + 2 at taken
        rcases Fault.of_bind_eq_error full with full | ⟨middle, middleLaid, full⟩
        · have limit := limit_of_entireMatch full
          omega
        · have takenAgain := issued_of_entireMatch middleLaid
          have limit := limit_of_addFiller full
          omega
    · exact absurd refused (build_ne_exhausted after)

end Regex

end TaggedRegex
