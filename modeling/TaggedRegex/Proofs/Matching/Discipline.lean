import TaggedRegex.Proofs.History.Scratch
import TaggedRegex.Proofs.Matching.Replay
import TaggedRegex.Proofs.Tour.Names

set_option autoImplicit false

/-!
How a matcher uses names. Transitions are computed once and used again and again, and with merging
they write to histories that have been in use before. Even so, what a step itself emits writes new
names only; a history of the state that is left is overwritten by nothing but the copies that take
the place of a registration, and these write to the state that is reached, or to the scratch history
while they break a cycle.
-/

namespace TaggedRegex

/-! ### Names, instructions and copies -/

/-- The name has been handed out, and not for the scratch history. -/
def Ordinary (supply : Supply) (scratch id : HistoryId) : Prop :=
  id.index < supply.issued ∧ id ≠ scratch

/-- What a step from a state has emitted: instructions on ordinary histories that write none of the
state's own. -/
structure Spares (supply : Supply) (scratch : HistoryId) (source : Configuration)
    (emitted : List Instruction) : Prop where
  ordinary : ∀ instruction ∈ emitted, ∀ id ∈ instruction.mentioned, Ordinary supply scratch id
  unwritten : ∀ instruction ∈ emitted, instruction.written ∉ source.histories

/-- Copies that make a state stand for what has been reached: none if it is the state itself, and
otherwise those of a renaming. They write to the state and to the scratch history, and they use the
scratch history for breaking cycles only. -/
structure Replaces (supply : Supply) (scratch : HistoryId) (reached target : Configuration)
    (copies : List Instruction) : Prop where
  renamed : copies = [] ∧ reached = target ∨
    ∃ pairing, reached.renamingOnto? target = some pairing ∧ copies = pairing.instructions scratch
  issued : ∀ instruction ∈ copies, ∀ id ∈ instruction.mentioned, id.index < supply.issued
  written : ∀ instruction ∈ copies,
    instruction.written ∈ target.histories ∨ instruction.written = scratch
  breaks : ∀ instruction ∈ copies, scratch ∈ instruction.mentioned →
    ∃ pairing, reached.renamingOnto? target = some pairing ∧
      pairing.BreaksCycle scratch copies instruction

variable {supply later : Supply} {scratch : HistoryId} {source reached target : Configuration}
  {emitted copies : List Instruction}

theorem Ordinary.mono {id : HistoryId} (ordinary : Ordinary supply scratch id)
    (le : supply.issued ≤ later.issued) : Ordinary later scratch id :=
  ⟨Nat.lt_of_lt_of_le ordinary.1 le, ordinary.2⟩

theorem Spares.mono (spares : Spares supply scratch source emitted)
    (le : supply.issued ≤ later.issued) : Spares later scratch source emitted :=
  ⟨fun instruction member id inside => (spares.ordinary instruction member id inside).mono le,
    spares.unwritten⟩

theorem Replaces.mono (replaces : Replaces supply scratch reached target copies)
    (le : supply.issued ≤ later.issued) : Replaces later scratch reached target copies :=
  ⟨replaces.renamed, fun instruction member id inside =>
    Nat.lt_of_lt_of_le (replaces.issued instruction member id inside) le, replaces.written,
    replaces.breaks⟩

theorem Configuration.WellNamed.ordinary {automaton : Automaton}
    (named : source.WellNamed automaton scratch supply) :
    ∀ id ∈ source.histories, Ordinary supply scratch id := by
  intro id member
  obtain ⟨thread, threadMember, inside⟩ := List.mem_flatMap.1 member
  exact (named.named thread threadMember).issued id inside

/-- A step takes ordinary names to ordinary names, and writes to those that it hands out itself. -/
theorem spares_of_advance {automaton : Automaton} {step : Step} (tagged : automaton.WellTagged)
    (named : source.WellNamed automaton scratch supply) (waiting : scratch.index < supply.issued)
    (advanced : Closure.advance automaton source step supply =
      .ok (some (reached, emitted), later)) :
    Spares later scratch source emitted ∧ ∀ id ∈ reached.histories, Ordinary later scratch id := by
  have emits := Closure.emits_of_advance tagged
    (fun thread member => (named.named thread member).length) advanced
  have known : ∀ id, source.Known supply later id → Ordinary later scratch id := by
    rintro id (member | ⟨new, below⟩)
    · exact (named.ordinary id member).mono emits.le
    · refine ⟨below, ?_⟩
      rintro rfl
      exact Nat.not_lt.2 new waiting
  refine ⟨⟨?_, ?_⟩, fun id member => known id (emits.histories id member)⟩
  · exact fun instruction member id inside =>
      known id (emits.mentioned instruction member id inside)
  · intro instruction member inside
    exact Nat.not_lt.2 (emits.written instruction member).1 (named.ordinary _ inside).1

/-- The copies of a renaming between configurations with ordinary names. -/
theorem replaces_of_renaming {pairing : Renaming} (waiting : scratch.index < supply.issued)
    (found : reached.renamingOnto? target = some pairing)
    (reachedOrdinary : ∀ id ∈ reached.histories, Ordinary supply scratch id)
    (targetOrdinary : ∀ id ∈ target.histories, Ordinary supply scratch id) :
    Replaces supply scratch reached target (pairing.instructions scratch) := by
  obtain ⟨one, members⟩ := Configuration.renamingOnto?_eq_some found
  have paired : ∀ first second, (first, second) ∈ pairing.pairs →
      first ∈ reached.histories ∧ second ∈ target.histories := by
    intro first second member
    obtain ⟨left, leftMember, right, rightMember, inLeft, inRight⟩ :=
      Configuration.exists_histories_of_mem_historyPairs ((members _).1 member)
    exact ⟨List.mem_flatMap.2 ⟨left, leftMember, inLeft⟩,
      List.mem_flatMap.2 ⟨right, rightMember, inRight⟩⟩
  refine ⟨Or.inr ⟨pairing, found, rfl⟩, ?_, ?_, ?_⟩
  · intro instruction member id inside
    have origin : id = scratch ∨ id ∈ reached.histories ∨ id ∈ target.histories := by
      rcases Renaming.mentioned_of_mem_instructions one member inside with
        used | ⟨other, pair⟩ | ⟨other, pair⟩
      · exact Or.inl used
      · exact Or.inr (Or.inl (paired id other pair).1)
      · exact Or.inr (Or.inr (paired other id pair).2)
    rcases origin with rfl | inReached | inTarget
    · exact waiting
    · exact (reachedOrdinary id inReached).1
    · exact (targetOrdinary id inTarget).1
  · intro instruction member
    rcases Renaming.written_of_mem_instructions one member with used | ⟨other, pair⟩
    · exact Or.inr used
    · exact Or.inl (paired other _ pair).2
  · intro instruction member used
    rcases Renaming.mem_instructions_cases one member with ⟨source, goal, pair, rfl⟩ | breaks
    · obtain ⟨sourceMember, goalMember⟩ := paired source goal pair
      simp only [Instruction.mentioned, List.mem_cons, List.not_mem_nil, or_false] at used
      rcases used with same | same
      · exact absurd same.symm (targetOrdinary goal goalMember).2
      · exact absurd same.symm (reachedOrdinary source sourceMember).2
    · exact ⟨pairing, found, breaks⟩

namespace Matcher

variable {matcher later : Matcher}

/-- How a transition of the table has come about: a step from its source over a character of its
range has emitted instructions, and copies have been appended, which are none without merging. -/
def Computes (matcher : Matcher) (transition : Transition) : Prop :=
  ∃ source target reached emitted copies,
    matcher.registry.get? transition.source = some source ∧
    matcher.registry.get? transition.target = some target ∧
    (∃ c ∈ transition.range, ∃ before after,
      Closure.advance matcher.automaton source (.char c) before =
        .ok (some (reached, emitted), after)) ∧
    transition.instructions = emitted ++ copies ∧ (matcher.merge = false → copies = []) ∧
    Spares matcher.supply matcher.scratch source emitted ∧
    Replaces matcher.supply matcher.scratch reached target copies

/-- How an acceptance has come about: the end of the input has been a step from its state. -/
def Accepts (matcher : Matcher) (state : Nat) (acceptance : Acceptance) : Prop :=
  ∃ source reached, matcher.registry.get? state = some source ∧
    (∃ before after, Closure.advance matcher.automaton source .finish before =
      .ok (some (reached, acceptance.instructions), after)) ∧
    reached.historiesOf? matcher.automaton.accept = some acceptance.histories ∧
    (∀ id ∈ acceptance.histories, Ordinary matcher.supply matcher.scratch id) ∧
    Spares matcher.supply matcher.scratch source acceptance.instructions

/-- All names that the matcher keeps are used as they should be. -/
structure Disciplined (matcher : Matcher) : Prop where
  waiting : matcher.scratch.index < matcher.supply.issued
  states : ∀ index configuration, matcher.registry.get? index = some configuration →
    ∀ id ∈ configuration.histories, Ordinary matcher.supply matcher.scratch id
  start : ∀ index instructions, matcher.start = some (index, instructions) →
    ∀ instruction ∈ instructions, ∀ id ∈ instruction.mentioned,
      Ordinary matcher.supply matcher.scratch id
  transitions : ∀ transition ∈ matcher.table.transitions, matcher.Computes transition
  acceptances : ∀ state acceptance, (state, some acceptance) ∈ matcher.acceptances →
    matcher.Accepts state acceptance

/-! ### What has been computed stays as it is -/

theorem Keeps.get? (keeps : matcher.Keeps later) {index : Nat} {configuration : Configuration}
    (registered : matcher.registry.get? index = some configuration) :
    later.registry.get? index = some configuration := by
  obtain ⟨more, split⟩ := keeps.registered
  rw [Registry.get?, ← Array.getElem?_toList] at registered ⊢
  rw [← split, List.getElem?_append_left (List.getElem?_eq_some_iff.1 registered).1]
  exact registered

theorem Keeps.computes (keeps : matcher.Keeps later) {transition : Transition}
    (computes : matcher.Computes transition) : later.Computes transition := by
  obtain ⟨source, target, reached, emitted, copies, left, entered, advanced, split, unmerged,
    spares, replaces⟩ := computes
  refine ⟨source, target, reached, emitted, copies, keeps.get? left, keeps.get? entered, ?_, split,
    ?_, ?_, ?_⟩
  · rw [keeps.automaton]
    exact advanced
  · rw [keeps.merge]
    exact unmerged
  · rw [keeps.scratch]
    exact spares.mono keeps.issued
  · rw [keeps.scratch]
    exact replaces.mono keeps.issued

theorem Keeps.accepts (keeps : matcher.Keeps later) {state : Nat} {acceptance : Acceptance}
    (accepts : matcher.Accepts state acceptance) : later.Accepts state acceptance := by
  obtain ⟨source, reached, left, advanced, found, ordinary, spares⟩ := accepts
  unfold Accepts
  rw [keeps.automaton, keeps.scratch]
  exact ⟨source, reached, keeps.get? left, advanced, found,
    fun id member => (ordinary id member).mono keeps.issued, spares.mono keeps.issued⟩

/-! ### Learning -/

/-- The configuration itself is registered, or a renaming leads to a registered one. -/
theorem replaces_of_locate {located : Matcher} {candidate : Configuration} {index : Nat}
    {copies : List Instruction} (consistent : matcher.Consistent)
    (ordinary : ∀ id ∈ candidate.histories, Ordinary matcher.supply matcher.scratch id)
    (success : matcher.locate candidate = (index, copies, located)) :
    ∃ registry target, located = { matcher with registry } ∧ registry.get? index = some target ∧
      (matcher.merge = false → copies = []) ∧
      Replaces matcher.supply matcher.scratch candidate target copies := by
  rcases locate_cases success with ⟨pairing, merge, found, rfl, rfl⟩ | ⟨-, rfl, rfl, rfl⟩
  · obtain ⟨target, registered, -, onto⟩ := Registry.findRenaming?_eq_some found
    refine ⟨_, target, rfl, registered, fun unmerged => ?_, ?_⟩
    · rw [unmerged] at merge
      cases merge
    · exact replaces_of_renaming consistent.waiting onto ordinary
        (consistent.named index target registered).ordinary
  · refine ⟨_, candidate, rfl, ?_, fun _ => rfl, Or.inl ⟨rfl, rfl⟩, ?_, ?_, ?_⟩
    · rw [Registry.get?_register, if_pos rfl]
    · exact fun _ member => absurd member List.not_mem_nil
    · exact fun _ member => absurd member List.not_mem_nil
    · exact fun _ member => absurd member List.not_mem_nil

theorem Learns.computes (learns : matcher.Learns later) (consistent : matcher.Consistent) :
    ∀ transition ∈ later.table.transitions,
      transition ∈ matcher.table.transitions ∨ later.Computes transition := by
  have keeps := learns.keeps consistent
  cases learns with
  | @transition source c range result missing found alive computed =>
    obtain ⟨configuration, reached, supply, registered, advanced, effect⟩ := compute_cases computed
    rcases effect with ⟨-, rfl⟩ |
      ⟨candidate, emitted, target, copies, located, place, table, rfl, locates, inserted, rfl⟩
    · exact fun transition member => Or.inl member
    · have supplied := consistent.withSupply (consistent.issued_le registered (by nofun) advanced)
      obtain ⟨spares, ordinary⟩ := spares_of_advance consistent.tagged
        (consistent.named source configuration registered) consistent.waiting advanced
      obtain ⟨registry, entered, rfl, targetRegistered, unmerged, replaces⟩ :=
        replaces_of_locate supplied ordinary locates
      intro transition member
      have perm := Table.perm_of_insert inserted
      rcases List.mem_cons.1 (perm.mem_iff.1 (Array.mem_toList_iff.2 member)) with rfl | old
      · have inside := Alphabet.mem_of_find? _ _ _ found
        exact Or.inr ⟨configuration, entered, candidate, emitted, copies, keeps.get? registered,
          targetRegistered, ⟨c, inside, _, _, advanced⟩, rfl, unmerged, spares, replaces⟩
      · exact Or.inl (Array.mem_toList_iff.1 old)
  | @acceptance state found missing computed =>
    obtain ⟨configuration, reached, supply, registered, advanced, -, rfl⟩ :=
      acceptance_cases missing computed
    exact fun transition member => Or.inl member

theorem Learns.accepts (learns : matcher.Learns later) (consistent : matcher.Consistent) :
    ∀ state acceptance, (state, some acceptance) ∈ later.acceptances →
      (state, some acceptance) ∈ matcher.acceptances ∨ later.Accepts state acceptance := by
  cases learns with
  | @transition source c range result missing found alive computed =>
    obtain ⟨configuration, reached, supply, registered, advanced, effect⟩ := compute_cases computed
    rcases effect with ⟨-, rfl⟩ |
      ⟨candidate, emitted, target, copies, located, place, table, -, locates, inserted, rfl⟩
    · exact fun state acceptance member => Or.inl member
    · obtain ⟨registry, rfl, -⟩ := locate_keeps locates
      exact fun state acceptance member => Or.inl member
  | @acceptance state found missing computed =>
    obtain ⟨configuration, reached, supply, registered, advanced, same, rfl⟩ :=
      acceptance_cases missing computed
    intro other acceptance member
    rcases List.mem_cons.1 member with new | old
    · right
      obtain ⟨rfl, rfl⟩ := Prod.mk.inj new
      obtain ⟨⟨target, emitted⟩, rfl, mapped⟩ := Option.bind_eq_some_iff.1 same.symm
      obtain ⟨histories, listed, rfl⟩ := Option.map_eq_some_iff.1 mapped
      obtain ⟨spares, ordinary⟩ := spares_of_advance consistent.tagged
        (consistent.named other configuration registered) consistent.waiting advanced
      refine ⟨configuration, target, registered, ⟨_, _, advanced⟩, listed, ?_, spares⟩
      intro id inside
      obtain ⟨thread, found, rfl⟩ := Option.map_eq_some_iff.1 listed
      exact ordinary id (List.mem_flatMap.2 ⟨thread, List.mem_of_find?_eq_some found, inside⟩)
    · exact Or.inl old

/-- Whatever a matcher learns, its names are used as they should be. -/
theorem Learns.disciplined (learns : matcher.Learns later) (consistent : matcher.Consistent)
    (disciplined : matcher.Disciplined) : later.Disciplined := by
  have keeps := learns.keeps consistent
  have laterConsistent := (learns.consistent consistent).1
  refine ⟨laterConsistent.waiting, ?_, ?_, ?_, ?_⟩
  · exact fun index configuration registered =>
      (laterConsistent.named index configuration registered).ordinary
  · intro index instructions begins instruction member id inside
    rw [keeps.start] at begins
    rw [keeps.scratch]
    exact (disciplined.start index instructions begins instruction member id inside).mono
      keeps.issued
  · intro transition member
    rcases learns.computes consistent transition member with old | computes
    · exact keeps.computes (disciplined.transitions transition old)
    · exact computes
  · intro state acceptance member
    rcases learns.accepts consistent state acceptance member with old | accepts
    · exact keeps.accepts (disciplined.acceptances state acceptance old)
    · exact accepts

/-- A new matcher has begun with a step from the first names. -/
theorem disciplined_of_ofAutomaton {automaton : Automaton} {merge : Bool}
    (tagged : automaton.WellTagged) (made : ofAutomaton automaton merge = .ok matcher)
    (consistent : matcher.Consistent) : matcher.Disciplined := by
  have waiting := consistent.waiting
  have states := fun index configuration registered =>
    (consistent.named index configuration registered).ordinary
  unfold ofAutomaton at made
  obtain ⟨⟨initial, supply⟩, tags, made⟩ := Fault.of_bind_eq_ok made
  obtain ⟨⟨scratch, next⟩, parked, made⟩ := Fault.of_bind_eq_ok made
  obtain ⟨⟨reached, later⟩, advanced, made⟩ := Fault.of_bind_eq_ok made
  obtain ⟨-, rfl, rfl⟩ := (Supply.freshHistory_eq_ok_iff _ _ _).1 parked
  have none : ∀ {α : Type} {x : α}, x ∉ ([] : List α) := List.not_mem_nil
  cases reached with
  | none =>
    obtain rfl := Except.ok.inj made
    refine ⟨waiting, states, ?_, fun _ member => absurd member (Array.not_mem_empty _),
      fun _ _ member => absurd member none⟩
    intro index instructions begins
    cases begins
  | some pair =>
    obtain ⟨configuration, instructions⟩ := pair
    obtain rfl := Except.ok.inj made
    obtain ⟨spares, -⟩ := spares_of_advance tagged (wellNamed_seed tags) (Nat.lt_succ_self _)
      advanced
    refine ⟨waiting, states, ?_, fun _ member => absurd member (Array.not_mem_empty _),
      fun _ _ member => absurd member none⟩
    intro index others begins
    obtain ⟨-, rfl⟩ := Prod.mk.inj (Option.some.inj begins)
    exact spares.ordinary

end Matcher

/-- Whatever inputs a matcher reads, with merging and without, every name that it keeps has been
handed out. The scratch history occurs in no state and in no acceptance, and in a transition only
where a cycle of a renaming is broken. What has been emitted by a step overwrites no history of the
state that is left; the copies behind it write to the state that is reached and to the scratch
history. -/
theorem Automaton.matcher_disciplined (builder : Builder) (automaton : Automaton)
    (built : builder.build = .ok automaton) (entire : ∃ group ∈ automaton.groups, group.number = 0)
    (merge : Bool) (inputs : List String)
    (enough : automaton.results merge inputs ≠ .error .historiesExhausted) :
    ∃ matcher results later, Matcher.ofAutomaton automaton merge = .ok matcher ∧
      matcher.matchInputs inputs = .ok (results, later) ∧ later.Disciplined := by
  obtain ⟨matcher, results, later, made, consistent, same, success⟩ :=
    exists_run built entire enough
  have tagged := (Builder.build_eq_ok built).2.2.2.2.2
  refine ⟨matcher, results, later, made, success, ?_⟩
  exact ((Matcher.matchInputs_grows success).preserves consistent
    (Matcher.disciplined_of_ofAutomaton tagged made consistent)
    fun early next earlyConsistent learns early => learns.disciplined earlyConsistent early).2.2

/-- Transitions that are merged and transitions that are registered, a dead end and an
acceptance. -/
theorem Automaton.matcher_disciplined_cyclic :
    ∃ matcher results later,
      Matcher.ofAutomaton ⟨Builder.cyclic.rows, ⟨0⟩, ⟨2⟩, Builder.cyclic.groups⟩ true =
        .ok matcher ∧
      matcher.matchInputs ["fg", "g", "gggf", "A"] = .ok (results, later) ∧
      later.Disciplined := by
  apply matcher_disciplined Builder.cyclic _ (by cbv)
  · exact ⟨.entireMatch, by decide, rfl⟩
  · apply Fault.ne_error_of_isOk
    cbv

end TaggedRegex
