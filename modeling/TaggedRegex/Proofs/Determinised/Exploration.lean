import TaggedRegex.Proofs.Automaton.Tagging
import TaggedRegex.Proofs.History.Execution
import TaggedRegex.Proofs.Trail.Survey

set_option autoImplicit false

/-!
The exploration with histories follows the exploration with trails. Its instructions are lists of
names; run on any memory whose histories hold what the walkers recorded, they bring the histories up
to date. Since names below the supply are only read, the same instructions may run again later.
-/

namespace TaggedRegex

/-- Names below the limit keep their histories. -/
def Memory.AgreesBelow (limit : Nat) (before after : Memory) : Prop :=
  ∀ id : HistoryId, id.index < limit → after.get? id = before.get? id

namespace Memory

theorem AgreesBelow.refl (limit : Nat) (memory : Memory) : memory.AgreesBelow limit memory :=
  fun _ _ => rfl

theorem AgreesBelow.trans {limit higher : Nat} {first second third : Memory}
    (early : first.AgreesBelow limit second) (late : second.AgreesBelow higher third)
    (le : limit ≤ higher) : first.AgreesBelow limit third := by
  intro id below
  rw [late id (Nat.lt_of_lt_of_le below le), early id below]

end Memory

/-- Every history holds what the trail recorded for the tag in its slot. -/
def Bears (automaton : Automaton) (memory : Memory) (histories : List HistoryId)
    (trail : Trail) : Prop :=
  ∀ (i : Nat) (tag : Tag) (id : HistoryId), automaton.tags[i]? = some tag →
    histories[i]? = some id → memory.Holds id (trail.recorded tag)

/-- There is one history for every tag. Their names have been handed out, and none of them is
`scratch`. -/
structure Named (automaton : Automaton) (scratch : HistoryId) (supply : Supply)
    (histories : List HistoryId) : Prop where
  length : histories.length = automaton.tags.length
  issued : ∀ id ∈ histories, id.index < supply.issued ∧ id ≠ scratch

variable {automaton : Automaton} {scratch : HistoryId}

theorem Named.mono {supply later : Supply} {histories : List HistoryId}
    (named : Named automaton scratch supply histories) (le : supply.issued ≤ later.issued) :
    Named automaton scratch later histories := by
  refine ⟨named.length, fun id member => ?_⟩
  have issued := named.issued id member
  exact ⟨by omega, issued.2⟩

/-- Only the histories that are named matter. -/
theorem Bears.of_agrees {before after : Memory} {supply : Supply} {histories : List HistoryId}
    {trail : Trail} (bears : Bears automaton before histories trail)
    (named : Named automaton scratch supply histories)
    (agrees : before.AgreesBelow supply.issued after) :
    Bears automaton after histories trail := by
  intro i tag id tagAt idAt
  have issued := named.issued id (List.mem_of_getElem? idAt)
  exact (bears i tag id tagAt idAt).of_get?_eq (agrees id issued.1)

/-- Thread by thread, the states are those of the walkers and the histories bear their trails. -/
def Carries (automaton : Automaton) (memory : Memory) (threads : List Thread)
    (walkers : List Walker) : Prop :=
  List.Forall₂ (fun thread walker => thread.state = walker.state ∧
    Bears automaton memory thread.histories walker.trail) threads walkers

theorem Carries.map_state {memory : Memory} {threads : List Thread} {walkers : List Walker}
    (carries : Carries automaton memory threads walkers) :
    threads.map Thread.state = walkers.map Walker.state := by
  induction carries with
  | nil => rfl
  | cons both rest ih => rw [List.map_cons, List.map_cons, both.1, ih]

theorem Carries.of_agrees {before after : Memory} {supply : Supply} {threads : List Thread}
    {walkers : List Walker} (carries : Carries automaton before threads walkers)
    (named : ∀ thread ∈ threads, Named automaton scratch supply thread.histories)
    (agrees : before.AgreesBelow supply.issued after) :
    Carries automaton after threads walkers := by
  induction carries with
  | nil => exact List.Forall₂.nil
  | cons both rest ih =>
    apply List.Forall₂.cons
    · exact ⟨both.1, both.2.of_agrees (named _ (List.mem_cons_self ..)) agrees⟩
    · exact ih fun thread member => named thread (List.mem_cons_of_mem _ member)

/-- The first thread on a state goes with the first walker on it. -/
theorem Carries.find? {memory : Memory} {threads : List Thread} {walkers : List Walker}
    (carries : Carries automaton memory threads walkers) (state : StateId) :
    ((threads.find? fun thread => thread.state = state) = none ∧
        (walkers.find? fun walker => walker.state = state) = none) ∨
      ∃ thread walker, thread ∈ threads ∧
        (threads.find? fun thread => thread.state = state) = some thread ∧
        (walkers.find? fun walker => walker.state = state) = some walker ∧
        Bears automaton memory thread.histories walker.trail := by
  induction carries with
  | nil => exact Or.inl ⟨rfl, rfl⟩
  | @cons thread walker threads walkers both rest ih =>
    by_cases here : thread.state = state
    · right
      refine ⟨thread, walker, List.mem_cons_self .., ?_, ?_, both.2⟩
      · rw [List.find?_cons_of_pos (by simpa using here)]
      · rw [List.find?_cons_of_pos (by simpa [← both.1] using here)]
    · rw [List.find?_cons_of_neg (by simpa using here),
        List.find?_cons_of_neg (by simpa [← both.1] using here)]
      rcases ih with none | ⟨other, later, member, found⟩
      · exact Or.inl none
      · exact Or.inr ⟨other, later, List.mem_cons_of_mem _ member, found⟩

theorem Supply.freshHistory_cases (supply : Supply) :
    supply.freshHistory = .error .historiesExhausted ∨
      supply.freshHistory = .ok (⟨supply.issued⟩, ⟨supply.issued + 1⟩) := by
  by_cases below : supply.issued < indexLimit
  · right
    rw [freshHistory_eq_ok_iff]
    exact ⟨below, rfl, rfl⟩
  · left
    rw [freshHistory, HistoryId.ofIndex, if_neg below]
    rfl

namespace Arrival

/-- The thread has its histories, and the tag that it is about to cross has a slot. -/
structure Ready (automaton : Automaton) (scratch : HistoryId) (supply : Supply)
    (arrival : Arrival) : Prop where
  named : Named automaton scratch supply arrival.thread.histories
  declared : ∀ tag, arrival.tag = some tag → tag ∈ automaton.tags

theorem Ready.mono {supply later : Supply} {arrival : Arrival}
    (ready : arrival.Ready automaton scratch supply) (le : supply.issued ≤ later.issued) :
    arrival.Ready automaton scratch later :=
  ⟨ready.named.mono le, ready.declared⟩

/-- The arrival is that of the walker, up to the last tag, which the walker has crossed and the
thread has not. -/
structure Stands (automaton : Automaton) (memory : Memory) (consumed : Nat) (arrival : Arrival)
    (walker : Walker) : Prop where
  state : arrival.thread.state = walker.state
  earlier : ∃ earlier : Trail, Bears automaton memory arrival.thread.histories earlier ∧
    ∀ tag, walker.trail.recorded tag =
      (if arrival.tag = some tag then [Trail.boundary consumed tag] else []) ++
        earlier.recorded tag

theorem Stands.of_agrees {before after : Memory} {supply : Supply} {consumed : Nat}
    {arrival : Arrival} {walker : Walker}
    (stands : arrival.Stands automaton before consumed walker)
    (ready : arrival.Ready automaton scratch supply)
    (agrees : before.AgreesBelow supply.issued after) :
    arrival.Stands automaton after consumed walker := by
  rcases stands.earlier with ⟨earlier, bears, recorded⟩
  exact ⟨stands.state, earlier, bears.of_agrees ready.named agrees, recorded⟩

theorem stands_without_tag {memory : Memory} {thread : Thread} {walker : Walker}
    (state : thread.state = walker.state)
    (bears : Bears automaton memory thread.histories walker.trail) (consumed : Nat) :
    Stands automaton memory consumed ⟨thread, none⟩ walker :=
  ⟨state, walker.trail, bears, fun _ => rfl⟩

theorem stands_overEdges {memory : Memory} {histories : List HistoryId} {walker : Walker}
    (bears : Bears automaton memory histories walker.trail) (consumed : Nat) (edges : List Edge) :
    List.Forall₂ (Stands automaton memory consumed) (overEdges histories edges)
      (edges.map (walker.follow consumed)) := by
  rw [overEdges, List.forall₂_map_left_iff, List.forall₂_map_right_iff, List.forall₂_same]
  intro edge _
  exact ⟨rfl, walker.trail, bears, Trail.recorded_concat walker.trail edge consumed⟩

theorem ready_overEdges {supply : Supply} {histories : List HistoryId} {edges : List Edge}
    (tagged : automaton.WellTagged) (named : Named automaton scratch supply histories)
    (has : ∀ edge ∈ edges, automaton.HasEdge edge) :
    ∀ arrival ∈ overEdges histories edges, arrival.Ready automaton scratch supply := by
  intro arrival member
  obtain ⟨edge, edgeMember, rfl⟩ := List.mem_map.1 member
  exact ⟨named, tagged.declared edge (has edge edgeMember)⟩

/-- Crossing a tag either finds no name left, or gives the thread the histories that the walker has
earned. -/
theorem crossTag_simulated {supply : Supply} {arrival : Arrival}
    (tagged : automaton.WellTagged) (waiting : scratch.index < supply.issued)
    (ready : arrival.Ready automaton scratch supply) :
    arrival.crossTag automaton supply = .error .historiesExhausted ∨
      ∃ thread added later, arrival.crossTag automaton supply = .ok (thread, added, later) ∧
        thread.state = arrival.thread.state ∧ supply.issued ≤ later.issued ∧
        Named automaton scratch later thread.histories ∧
        ∀ memory consumed walker, arrival.Stands automaton memory consumed walker →
          ∃ after, memory.performAll ((consumed : Int) - 1) added = .ok after ∧
            memory.AgreesBelow supply.issued after ∧
            Bears automaton after thread.histories walker.trail := by
  cases carried : arrival.tag with
  | none =>
    right
    refine ⟨arrival.thread, [], supply, ?_, rfl, Nat.le_refl _, ready.named, ?_⟩
    · rw [crossTag, carried]
    · intro memory consumed walker stands
      rcases stands.earlier with ⟨earlier, bears, recorded⟩
      refine ⟨memory, rfl, .refl _ _, ?_⟩
      intro i tag id tagAt idAt
      have same := recorded tag
      rw [carried, if_neg (by simp), List.nil_append] at same
      rw [same]
      exact bears i tag id tagAt idAt
  | some tag =>
    rcases tagged.exists_slot (ready.declared tag carried) with ⟨slot, found, only⟩
    have slotLt : slot < arrival.thread.histories.length := by
      rw [ready.named.length]
      exact (List.getElem?_eq_some_iff.1 ((only slot).2 rfl)).1
    have oldAt : arrival.thread.histories[slot]? = some arrival.thread.histories[slot] :=
      List.getElem?_eq_getElem slotLt
    rcases supply.freshHistory_cases with exhausted | fresh
    · left
      simp only [crossTag, carried, found, oldAt, exhausted]
    · right
      refine ⟨⟨arrival.thread.state, arrival.thread.histories.set slot ⟨supply.issued⟩⟩,
        [.copy ⟨supply.issued⟩ arrival.thread.histories[slot],
          .set ⟨supply.issued⟩ tag.offset, tag.commit ⟨supply.issued⟩],
        ⟨supply.issued + 1⟩, ?_, rfl, Nat.le_succ _, ⟨?_, ?_⟩, ?_⟩
      · simp only [crossTag, carried, found, oldAt, fresh]
      · rw [List.length_set, ready.named.length]
      · intro id member
        rcases List.mem_or_eq_of_mem_set member with old | rfl
        · have issued := ready.named.issued id old
          exact ⟨Nat.lt_succ_of_lt issued.1, issued.2⟩
        · refine ⟨Nat.lt_succ_self _, ?_⟩
          rintro rfl
          exact Nat.lt_irrefl _ waiting
      · intro memory consumed walker stands
        rcases stands.earlier with ⟨earlier, bears, recorded⟩
        have holds := bears slot tag _ ((only slot).2 rfl) oldAt
        rcases Memory.performAll_cross holds ((consumed : Int) - 1) tag ⟨supply.issued⟩ with
          ⟨after, runs, marked, frame⟩
        have kept : memory.AgreesBelow supply.issued after := by
          intro id below
          apply frame
          rintro rfl
          exact Nat.lt_irrefl _ below
        refine ⟨after, runs, kept, ?_⟩
        intro i other id tagAt idAt
        rw [recorded other, carried]
        rw [List.getElem?_set] at idAt
        by_cases here : slot = i
        · subst here
          rw [if_pos rfl, if_pos slotLt] at idAt
          obtain rfl := Option.some.inj idAt
          obtain rfl := Option.some.inj (((only slot).2 rfl).symm.trans tagAt)
          rw [if_pos rfl]
          exact marked
        · rw [if_neg here] at idAt
          have different : ¬ some tag = some other := by
            intro same
            rw [← same, only] at tagAt
            exact here tagAt.symm
          rw [if_neg different, List.nil_append]
          have issued := ready.named.issued id (List.mem_of_getElem? idAt)
          exact (bears i other id tagAt idAt).of_get?_eq (kept id issued.1)

end Arrival

end TaggedRegex
