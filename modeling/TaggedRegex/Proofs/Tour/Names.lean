import TaggedRegex.Proofs.Tour.Advance
import TaggedRegex.Proofs.Determinised.RenamingSearch

set_option autoImplicit false

/-!
The names that a step reads, writes and hands out. A thread that is found has the histories of the
thread it comes from, but for those that its path has replaced by new ones; the instructions read
histories of both kinds and write new ones only.
-/

namespace TaggedRegex

/-- The name has been handed out between one state of the supply and a later one. -/
def Supply.HandedOut (supply later : Supply) (id : HistoryId) : Prop :=
  supply.issued ≤ id.index ∧ id.index < later.issued

/-- What a step from `source` may have to do with: the histories of its threads, and the names that
the step has handed out. -/
def Configuration.Known (source : Configuration) (supply later : Supply) (id : HistoryId) : Prop :=
  id ∈ source.histories ∨ supply.HandedOut later id

namespace Visit

variable {automaton : Automaton} {name : StateId → HistoryId} {supply : Supply} {step : Step}
  {source : Configuration} {visits : List Visit}

theorem mem_histories_cases {visit : Visit} {id : HistoryId}
    (member : id ∈ visit.histories automaton name) :
    id ∈ visit.before.histories automaton name ∨ visit.crosses = true ∧ id = name visit.state := by
  rcases visit.eq_nil_or_follow with start | ⟨edge, last⟩
  · left
    rw [start] at member ⊢
    exact member
  · rw [last, histories_follow, crossEdge] at member
    rw [last, before_follow, crosses, tag?_follow, state_follow]
    split at member
    · exact Or.inl member
    · rename_i slot found
      rcases List.mem_or_eq_of_mem_set member with early | rfl
      · exact Or.inl early
      · obtain ⟨tag, carries, -⟩ := Option.bind_eq_some_iff.1 found
        exact Or.inr ⟨by rw [carries]; rfl, rfl⟩

/-- A visit that crosses a tag writes its new name, and reads a history that it found. -/
theorem mentioned_of_mem_instructions {visit : Visit} {instruction : Instruction}
    (member : instruction ∈ visit.instructions automaton name) :
    visit.crosses = true ∧ instruction.written = name visit.state ∧
      ∀ id ∈ instruction.mentioned,
        id = name visit.state ∨ id ∈ visit.before.histories automaton name := by
  rw [instructions] at member
  split at member
  · cases member
  · rename_i tag carries
    split at member
    · cases member
    · rename_i old found
      obtain ⟨slot, -, oldAt⟩ := Option.bind_eq_some_iff.1 found
      have inside := List.mem_of_getElem? oldAt
      refine ⟨by rw [crosses, carries]; rfl, ?_⟩
      simp only [List.mem_cons, List.not_mem_nil, or_false] at member
      rcases member with rfl | rfl | rfl
      · exact ⟨rfl, by simp [Instruction.mentioned, inside]⟩
      · exact ⟨rfl, by simp [Instruction.mentioned]⟩
      · cases boundary : tag.boundary <;>
          simp [Tag.commit, boundary, Instruction.mentioned, Instruction.written]

theorem Names.handedOut (names : Names name supply visits) {visit : Visit} (member : visit ∈ visits)
    (crossing : visit.crosses = true) :
    supply.HandedOut ⟨supply.issued + visits.countP crosses⟩ (name visit.state) := by
  obtain ⟨earlier, later, rfl⟩ := List.append_of_mem member
  rw [names earlier visit later rfl crossing, List.countP_append, List.countP_cons_of_pos crossing]
  constructor <;> dsimp only <;> omega

/-- Whatever is entered has histories of its thread and names that are handed out, and so had what
it comes from. -/
theorem known_of_grown (names : Names name supply visits) {entered : List Visit}
    (grown : (terrain (Closure.freeEdges automaton step)).Grown (Begins automaton step source)
      entered) (within : ∀ visit ∈ entered, visit ∈ visits) :
    ∀ visit ∈ entered,
      (∀ id ∈ visit.before.histories automaton name,
        source.Known supply ⟨supply.issued + visits.countP crosses⟩ id) ∧
      ∀ id ∈ visit.histories automaton name,
        source.Known supply ⟨supply.issued + visits.countP crosses⟩ id := by
  induction grown with
  | nil => exact fun _ member => absurd member List.not_mem_nil
  | @enter entered visit _ comes ih =>
    have known := ih fun other member => within other (List.mem_append_left _ member)
    have found : ∀ id ∈ visit.before.histories automaton name,
        source.Known supply ⟨supply.issued + visits.countP crosses⟩ id := by
      rcases comes with begins | ⟨parent, member, priority, onward⟩
      · intro id inside
        rw [histories, begins.short] at inside
        exact Or.inl (List.mem_flatMap.2 ⟨visit.origin, begins.arrives.origin, inside⟩)
      · obtain ⟨edge, -, rfl⟩ := List.mem_map.1 onward
        rw [before_follow]
        exact (known parent member).2
    intro other member
    rcases List.mem_append.1 member with early | last
    · exact known other early
    · obtain rfl := List.mem_singleton.1 last
      refine ⟨found, fun id inside => ?_⟩
      rcases mem_histories_cases inside with before | ⟨crossing, rfl⟩
      · exact found id before
      · exact Or.inr (names.handedOut (within other member) crossing)

end Visit

namespace Closure

variable {automaton : Automaton} {supply later : Supply} {step : Step}
  {source target : Configuration} {instructions : List Instruction}

/-- What a step does with names. -/
structure Emits (source : Configuration) (supply later : Supply) (target : Configuration)
    (instructions : List Instruction) : Prop where
  le : supply.issued ≤ later.issued
  histories : ∀ id ∈ target.histories, source.Known supply later id
  mentioned : ∀ instruction ∈ instructions, ∀ id ∈ instruction.mentioned,
    source.Known supply later id
  written : ∀ instruction ∈ instructions, supply.HandedOut later instruction.written

theorem emits_of_advance (tagged : automaton.WellTagged)
    (lengths : ∀ thread ∈ source.threads, thread.histories.length = automaton.tags.length)
    (success : advance automaton source step supply = .ok (some (target, instructions), later)) :
    Emits source supply later target instructions := by
  have outcome := advance_eq_visits tagged lengths step supply
  have grown := Visit.grown_visits automaton step source
  have names := Visit.names_naming supply (Visit.nodup_visits automaton step source)
  have known := Visit.known_of_grown names grown fun _ member => member
  generalize source.visits automaton step = visits at outcome names known
  rw [success] at outcome
  rcases outcome with failed | same
  · cases failed
  · obtain ⟨found, rfl⟩ := Prod.mk.inj (Except.ok.inj same)
    split at found
    · cases found
    · obtain ⟨rfl, rfl⟩ := Prod.mk.inj (Option.some.inj found)
      refine ⟨Nat.le_add_right _ _, ?_, ?_, ?_⟩
      · intro id member
        obtain ⟨thread, threadMember, inside⟩ := List.mem_flatMap.1 member
        obtain ⟨visit, live, rfl⟩ := List.mem_map.1 threadMember
        exact (known visit (List.mem_of_mem_filter live)).2 id inside
      · intro instruction member id inside
        obtain ⟨visit, visited, emitted⟩ := List.mem_flatMap.1 member
        obtain ⟨crossing, -, mentions⟩ := Visit.mentioned_of_mem_instructions emitted
        rcases mentions id inside with rfl | before
        · exact Or.inr (names.handedOut visited crossing)
        · exact (known visit visited).1 id before
      · intro instruction member
        obtain ⟨visit, visited, emitted⟩ := List.mem_flatMap.1 member
        obtain ⟨crossing, written, -⟩ := Visit.mentioned_of_mem_instructions emitted
        rw [written]
        exact names.handedOut visited crossing

end Closure

end TaggedRegex
