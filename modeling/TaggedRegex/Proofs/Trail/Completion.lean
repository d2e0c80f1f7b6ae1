import TaggedRegex.Proofs.Trail.Run

set_option autoImplicit false

/-!
Completions, the ways on from a state in the middle of the input. Unlike a run a completion may
enter a state again and again between two characters. Where it does, the loop may as well be left
out or taken twice, so what cannot be improved in either way is a run.
-/

namespace TaggedRegex

namespace Automaton

/-- A path from a state to the accepting one that reads exactly the rest of the input, where
`consumed` characters lie behind. -/
inductive Completes (automaton : Automaton) : List Char → Nat → StateId → Trail → Prop
  | done (consumed : Nat) : Completes automaton [] consumed automaton.accept []
  | free {rest : List Char} {consumed : Nat} {state : StateId} {edge : Edge} {trail : Trail} :
      edge ∈ automaton.onEpsilon state → Completes automaton rest consumed edge.target trail →
      Completes automaton rest consumed state (⟨edge, consumed⟩ :: trail)
  | read {c : Char} {rest : List Char} {consumed : Nat} {state : StateId} {edge : Edge}
      {trail : Trail} :
      edge ∈ automaton.onChar state c → Completes automaton rest (consumed + 1) edge.target trail →
      Completes automaton (c :: rest) consumed state (⟨edge, consumed + 1⟩ :: trail)
  | atEnd {consumed : Nat} {state : StateId} {edge : Edge} {trail : Trail} :
      edge ∈ automaton.onEnd state → Completes automaton [] consumed edge.target trail →
      Completes automaton [] consumed state (⟨edge, consumed⟩ :: trail)

/-- A completion whose next step is not an epsilon edge. -/
inductive Departs (automaton : Automaton) : List Char → Nat → StateId → Trail → Prop
  | done (consumed : Nat) : Departs automaton [] consumed automaton.accept []
  | read {c : Char} {rest : List Char} {consumed : Nat} {state : StateId} {edge : Edge}
      {trail : Trail} :
      edge ∈ automaton.onChar state c → Completes automaton rest (consumed + 1) edge.target trail →
      Departs automaton (c :: rest) consumed state (⟨edge, consumed + 1⟩ :: trail)
  | atEnd {consumed : Nat} {state : StateId} {edge : Edge} {trail : Trail} :
      edge ∈ automaton.onEnd state → Completes automaton [] consumed edge.target trail →
      Departs automaton [] consumed state (⟨edge, consumed⟩ :: trail)

/-- The states that may follow once the input has ended. -/
def anyEnd (automaton : Automaton) (state : StateId) : List Edge :=
  automaton.onEpsilon state ++ automaton.onEnd state

variable {automaton : Automaton}

theorem Departs.completes {rest : List Char} {consumed : Nat} {state : StateId} {trail : Trail}
    (departs : automaton.Departs rest consumed state trail) :
    automaton.Completes rest consumed state trail := by
  cases departs with
  | done => exact .done consumed
  | read member completes => exact .read member completes
  | atEnd member completes => exact .atEnd member completes

/-- Whoever departs stands on a live state. -/
theorem Departs.isLive {rest : List Char} {consumed : Nat} {state : StateId} {trail : Trail}
    (departs : automaton.Departs rest consumed state trail) : automaton.isLive state = true := by
  cases departs with
  | done => exact isLive_accept automaton
  | read member _ => exact isLive_of_mem_onChar member
  | atEnd member _ => exact isLive_of_mem_onEnd member

namespace Completes

/-- A completion begins with the epsilon edges before its first other step. -/
theorem departure {rest : List Char} {consumed : Nat} {source : StateId} {trail : Trail}
    (completes : automaton.Completes rest consumed source trail) :
    ∃ glide state later, trail = glide ++ later ∧
      Glides automaton.onEpsilon consumed source glide state ∧
      automaton.Departs rest consumed state later := by
  induction completes with
  | done consumed => exact ⟨[], _, [], rfl, .stay _, .done consumed⟩
  | free member _ ih =>
    rcases ih with ⟨glide, state, later, rfl, glides, departs⟩
    exact ⟨_, state, later, rfl, .cross member glides, departs⟩
  | read member completes _ => exact ⟨[], _, _, rfl, .stay _, .read member completes⟩
  | atEnd member completes _ => exact ⟨[], _, _, rfl, .stay _, .atEnd member completes⟩

/-- A path of epsilon edges in front of a completion. -/
theorem after_glide {rest : List Char} {consumed : Nat} {source target : StateId}
    {glide trail : Trail} (glides : Glides automaton.onEpsilon consumed source glide target)
    (completes : automaton.Completes rest consumed target trail) :
    automaton.Completes rest consumed source (glide ++ trail) := by
  induction glides with
  | stay => exact completes
  | cross member _ ih => exact .free member (ih completes)

/-- At the end of the input a completion is a path over epsilon edges and edges for the end. -/
theorem nil_iff {consumed : Nat} {state : StateId} {trail : Trail} :
    automaton.Completes [] consumed state trail ↔
      Glides automaton.anyEnd consumed state trail automaton.accept := by
  constructor
  · intro completes
    generalize empty : ([] : List Char) = rest at completes
    induction completes with
    | done consumed => exact .stay _
    | free member _ ih => exact .cross (List.mem_append_left _ member) (ih empty)
    | read _ _ _ => cases empty
    | atEnd member _ ih => exact .cross (List.mem_append_right _ member) (ih rfl)
  · intro glides
    generalize final : automaton.accept = target at glides
    induction glides with
    | stay state =>
      rw [← final]
      exact .done consumed
    | cross member _ ih =>
      rcases List.mem_append.1 member with epsilon | atEnd
      · exact .free epsilon (ih final)
      · exact .atEnd atEnd (ih final)

end Completes

/-- Nothing leads on from the accepting state of an orderly automaton at the end of the input. -/
theorem Orderly.ne_accept (orderly : automaton.Orderly) {state : StateId} {edge : Edge}
    (member : edge ∈ automaton.onEnd state) : state ≠ automaton.accept := by
  rintro rfl
  rw [orderly.acceptStops] at member
  cases member

/-- Whatever completes after the arrival of a run completes the whole input. -/
theorem Arrives.completes {input rest : List Char} {before trail : Trail} {state : StateId}
    (arrives : automaton.Arrives input before state)
    (completes : automaton.Completes rest input.length state trail) :
    automaton.Completes (input ++ rest) 0 automaton.initial (before ++ trail) := by
  induction arrives generalizing rest trail with
  | start glides _ => exact completes.after_glide glides
  | @read input before glide source target c edge _ member glides _ ih =>
    rw [List.length_append, List.length_singleton] at completes
    have longer := ih (.read member (completes.after_glide glides))
    rw [List.append_assoc, List.append_assoc]
    exact longer

/-- A run is a completion of the whole input. -/
theorem IsRun.completes {input : List Char} {run : Trail} (isRun : automaton.IsRun input run) :
    automaton.Completes input 0 automaton.initial run := by
  rcases isRun with ⟨before, last, state, rfl, arrives, ends⟩
  have completes : automaton.Completes [] input.length state last := by
    cases ends with
    | accepting => exact .done input.length
    | atEnd _ member glides _ => exact .atEnd member (Completes.nil_iff.2 glides)
  have whole := arrives.completes completes
  rw [List.append_nil] at whole
  exact whole

/-- The trail goes around a loop that can be left out and that can be taken twice. -/
def Winds (completes : Trail → Prop) (trail : Trail) : Prop :=
  ∃ before loop later, trail = before ++ loop ++ later ∧ loop ≠ [] ∧
    completes (before ++ later) ∧ completes (before ++ (loop ++ (loop ++ later)))

/-- A common beginning does not matter. -/
theorem Winds.prepend {completes longer : Trail → Prop} {trail : Trail}
    (winds : Winds completes trail) (common : Trail)
    (lengthen : ∀ trail, completes trail → longer (common ++ trail)) :
    Winds longer (common ++ trail) := by
  rcases winds with ⟨before, loop, later, rfl, nonempty, without, twice⟩
  refine ⟨common ++ before, loop, later, ?_, nonempty, ?_, ?_⟩
  · simp only [List.append_assoc]
  · rw [List.append_assoc]
    exact lengthen _ without
  · rw [List.append_assoc]
    exact lengthen _ twice

/-- A common end does not matter. -/
theorem Winds.append {completes longer : Trail → Prop} {trail : Trail}
    (winds : Winds completes trail) (common : Trail)
    (lengthen : ∀ trail, completes trail → longer (trail ++ common)) :
    Winds longer (trail ++ common) := by
  rcases winds with ⟨before, loop, later, rfl, nonempty, without, twice⟩
  refine ⟨before, loop, later ++ common, ?_, nonempty, ?_, ?_⟩
  · simp only [List.append_assoc]
  · rw [← List.append_assoc]
    exact lengthen _ without
  · have longerTwice := lengthen _ twice
    simp only [List.append_assoc] at longerTwice
    exact longerTwice

/-- A path that enters a state twice goes around a loop. -/
theorem winds_of_again {free : StateId → List Edge} {consumed : Nat} {source target : StateId}
    {glide : Trail} (glides : Glides free consumed source glide target)
    (again : ¬ (source :: glide.entered).Nodup) :
    Winds (fun trail => Glides free consumed source trail target) glide := by
  induction glides with
  | stay source => exact absurd (List.nodup_singleton source) again
  | @cross source target edge glide member rest ih =>
    by_cases inside : source ∈ edge.target :: glide.entered
    · rcases rest.split_at inside with ⟨first, second, rfl, early, late⟩
      have loop := Glides.cross member early
      refine ⟨[], ⟨edge, consumed⟩ :: first, second, rfl, List.cons_ne_nil _ _, late, ?_⟩
      exact loop.append (loop.append late)
    · have later : ¬ (edge.target :: glide.entered).Nodup :=
        fun distinct => again (List.nodup_cons.2 ⟨inside, distinct⟩)
      exact (ih later).prepend [⟨edge, consumed⟩] fun _ path => .cross member path

namespace Completes

/-- A completion is the rest of a run or goes around a loop. `opened` says how a run gets to the
state at which the completion begins. -/
theorem isRun_or_winds (orderly : automaton.Orderly) {rest : List Char} {source : StateId}
    {trail : Trail} {input : List Char} {before : Trail}
    (completes : automaton.Completes rest input.length source trail)
    (opened : ∀ glide state, Glides automaton.onEpsilon input.length source glide state →
      (source :: glide.entered).Nodup → automaton.Arrives input (before ++ glide) state) :
    automaton.IsRun (input ++ rest) (before ++ trail) ∨
      Winds (automaton.Completes rest input.length source) trail := by
  induction rest generalizing source trail input before with
  | nil =>
    rcases completes.departure with ⟨glide, state, later, rfl, glides, departs⟩
    by_cases distinct : (source :: glide.entered).Nodup
    · have arrives := opened glide state glides distinct
      rw [List.append_nil, ← List.append_assoc]
      cases departs with
      | done => exact Or.inl ⟨before ++ glide, [], _, rfl, arrives, .accepting⟩
      | @atEnd _ _ edge final member finishes =>
        have path := nil_iff.1 finishes
        by_cases simple : (edge.target :: final.entered).Nodup
        · exact Or.inl ⟨before ++ glide, _, state, rfl, arrives,
            .atEnd (orderly.ne_accept member) member path simple⟩
        · right
          apply Winds.prepend _ glide fun _ => after_glide glides
          apply (winds_of_again path simple).prepend [⟨edge, input.length⟩]
          exact fun _ around => .atEnd member (nil_iff.2 around)
    · right
      exact (winds_of_again glides distinct).append later fun _ around =>
        after_glide around departs.completes
  | cons c rest ih =>
    rcases completes.departure with ⟨glide, state, later, rfl, glides, departs⟩
    by_cases distinct : (source :: glide.entered).Nodup
    · have arrives := opened glide state glides distinct
      cases departs with
      | @read _ _ _ _ edge later member goesOn =>
        have counted : (input ++ [c]).length = input.length + 1 := List.length_append
        rw [← counted] at goesOn
        have reached : ∀ onward target,
            Glides automaton.onEpsilon (input ++ [c]).length edge.target onward target →
            (edge.target :: onward.entered).Nodup → automaton.Arrives (input ++ [c])
              (before ++ glide ++ [⟨edge, input.length + 1⟩] ++ onward) target := by
          intro onward target onwards simple
          rw [counted] at onwards
          rw [List.append_assoc]
          exact .read arrives member onwards simple
        have next := ih goesOn reached
        rw [List.append_assoc input, List.append_assoc, List.append_assoc] at next
        rcases next with isRun | winds
        · exact Or.inl isRun
        · right
          apply Winds.prepend _ glide fun _ => after_glide glides
          apply winds.prepend [⟨edge, input.length + 1⟩]
          intro trail around
          rw [counted] at around
          exact .read member around
    · right
      exact (winds_of_again glides distinct).append later fun _ around =>
        after_glide around departs.completes

/-- A completion of the whole input is a run or goes around a loop. -/
theorem isRun_or_winds_of_initial (orderly : automaton.Orderly) {input : List Char} {trail : Trail}
    (completes : automaton.Completes input 0 automaton.initial trail) :
    automaton.IsRun input trail ∨ Winds (automaton.Completes input 0 automaton.initial) trail := by
  have opened : ∀ glide state,
      Glides automaton.onEpsilon ([] : List Char).length automaton.initial glide state →
      (automaton.initial :: glide.entered).Nodup → automaton.Arrives [] ([] ++ glide) state :=
    fun _ _ glides simple => .start glides simple
  exact isRun_or_winds orderly completes opened

/-- If anything completes the whole input there is a run: leave out all loops. -/
theorem exists_isRun (orderly : automaton.Orderly) {input : List Char} {trail : Trail}
    (completes : automaton.Completes input 0 automaton.initial trail) :
    ∃ run, automaton.IsRun input run ∧ run.Sublist trail := by
  induction length : trail.length using Nat.strongRecOn generalizing trail with
  | ind bound ih =>
    obtain isRun | winds := completes.isRun_or_winds_of_initial orderly
    · exact ⟨trail, isRun, List.Sublist.refl trail⟩
    · obtain ⟨before, loop, later, rfl, nonempty, without, -⟩ := winds
      have positive := List.length_pos_iff.2 nonempty
      have shorter : (before ++ later).length < bound := by
        simp only [List.length_append] at length ⊢
        omega
      obtain ⟨run, isRun, sublist⟩ := ih _ shorter without rfl
      refine ⟨run, isRun, sublist.trans ?_⟩
      rw [List.append_assoc]
      exact (List.sublist_append_right loop later).append_left before

/-- The first of all completions of the whole input is a run. A loop on it could be left out or
taken twice, and one of the two would come before it. -/
theorem isRun_of_least (orderly : automaton.Orderly) {input : List Char} {trail : Trail}
    (completes : automaton.Completes input 0 automaton.initial trail)
    (least : ∀ other, automaton.Completes input 0 automaton.initial other → trail.NotAfter other) :
    automaton.IsRun input trail := by
  rcases completes.isRun_or_winds_of_initial orderly with isRun | winds
  · exact isRun
  · rcases winds with ⟨before, loop, later, rfl, nonempty, without, twice⟩
    have positive := List.length_pos_iff.2 nonempty
    have differs : ∀ {first second : Trail}, first.length ≠ second.length →
        first.NotAfter second → first.Precedes second := by
      intro first second lengths notAfter
      rcases notAfter with rfl | precedes
      · exact absurd rfl lengths
      · exact precedes
    have shorter := differs (by simp only [List.length_append]; omega) (least _ without)
    have longer := differs (by simp only [List.length_append]; omega) (least _ twice)
    rw [List.append_assoc] at shorter longer
    exact absurd shorter.of_prepend longer.of_prepend.of_prepend.asymm

end Completes

end Automaton

end TaggedRegex
