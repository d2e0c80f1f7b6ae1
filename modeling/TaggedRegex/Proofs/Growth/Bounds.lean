import TaggedRegex.Proofs.Growth.Blueprint
import TaggedRegex.Proofs.Matching.Learning
import TaggedRegex.Proofs.Matching.MergeInvariance

set_option autoImplicit false

/-!
A matcher that merges stays small. However many inputs it reads, no two of its states are mappable
onto each other, each transition and each acceptance is computed once, and only these computations
hand out names.
-/

namespace TaggedRegex

theorem Supply.issued_of_freshHistories {supply later : Supply} {count : Nat}
    {ids : List HistoryId} (success : supply.freshHistories count = .ok (ids, later)) :
    later.issued = supply.issued + count := by
  induction count generalizing supply ids with
  | zero =>
    obtain ⟨-, rfl⟩ := Prod.mk.inj (Except.ok.inj success)
    rfl
  | succ count ih =>
    rw [freshHistories] at success
    obtain ⟨⟨id, next⟩, first, success⟩ := Fault.of_bind_eq_ok success
    obtain ⟨⟨rest, last⟩, others, success⟩ := Fault.of_bind_eq_ok success
    obtain ⟨-, rfl⟩ := Prod.mk.inj (Except.ok.inj success)
    obtain ⟨-, -, rfl⟩ := (freshHistory_eq_ok_iff _ _ _).1 first
    rw [ih others]
    dsimp only
    omega

/-- No two of the registered configurations are mappable onto each other. -/
structure Registry.Irredundant (automaton : Automaton) (registry : Registry) : Prop where
  occurs : ∀ index configuration, registry.get? index = some configuration →
    configuration.Occurs automaton
  apart : ∀ i j first second, registry.get? i = some first → registry.get? j = some second →
    first.MappableOnto second → i = j

/-- A configuration may be registered if it is mappable onto none that is there. -/
theorem Registry.Irredundant.register {automaton : Automaton} {registry : Registry}
    (irredundant : registry.Irredundant automaton) {candidate : Configuration}
    (occurs : candidate.Occurs automaton)
    (missing : registry.findRenaming? candidate = none) :
    (registry.register candidate).2.Irredundant automaton := by
  constructor
  · intro place configuration registered
    rw [get?_register] at registered
    split at registered
    · rw [← Option.some.inj registered]
      exact occurs
    · exact irredundant.occurs place configuration registered
  · intro i j first second left right mappable
    rw [get?_register] at left right
    split at left <;> split at right
    · rename_i iLast jLast
      rw [iLast, jLast]
    · rw [← Option.some.inj left] at mappable
      exact absurd mappable (findRenaming?_eq_none missing right)
    · rw [← Option.some.inj right] at mappable
      exact absurd mappable.symm (findRenaming?_eq_none missing left)
    · exact irredundant.apart i j first second left right mappable

theorem Registry.irredundant_empty (automaton : Automaton) :
    Registry.empty.Irredundant automaton := by
  constructor
  · intro index configuration registered
    cases registered
  · intro i j first second registered
    cases registered

namespace Matcher

/-- The transitions that have been computed, with those that lead nowhere: for each its state and
its part of the alphabet. -/
def settled (matcher : Matcher) : List (Nat × CharRange) :=
  matcher.table.transitions.toList.map (fun transition => (transition.source, transition.range)) ++
    matcher.dead

/-- Nothing has been done twice: no configuration registered that is mappable onto another one, no
transition and no acceptance computed again. All names come from what has been done. -/
structure Frugal (matcher : Matcher) : Prop where
  merges : matcher.merge = true
  registered : matcher.registry.Irredundant matcher.automaton
  once : matcher.settled.Nodup
  parts : ∀ entry ∈ matcher.settled, entry.2 ∈ matcher.alphabet.ranges
  endsOnce : (matcher.acceptances.map Prod.fst).Nodup
  names : matcher.supply.issued ≤ matcher.automaton.tags.length + 1 +
    matcher.automaton.occurring.card *
      (1 + matcher.settled.length + matcher.acceptances.length)

/-- A transition that the table lacks and that is not known to be dead has not been computed. -/
theorem not_mem_settled {matcher : Matcher} (consistent : matcher.Consistent) {source : Nat}
    {c : Char} {range : CharRange} (missing : matcher.table.get? source c = none)
    (found : matcher.alphabet.find? c = some range) (alive : (source, range) ∉ matcher.dead) :
    (source, range) ∉ matcher.settled := by
  intro member
  rcases List.mem_append.1 member with compiled | dead
  · obtain ⟨transition, inTable, same⟩ := List.mem_map.1 compiled
    obtain ⟨rfl, rfl⟩ := Prod.mk.inj same
    rw [consistent.sorted.get?_eq_some (Array.mem_toList_iff.1 inTable)
      (Alphabet.mem_of_find? _ _ _ found)] at missing
    cases missing
  · exact alive dead

/-- One more computation pays for the names of one more step. -/
theorem names_step {automaton : Automaton} {before after done : Nat}
    (names : before ≤ automaton.tags.length + 1 + automaton.occurring.card * done)
    (cost : after ≤ before + automaton.occurring.card) :
    after ≤ automaton.tags.length + 1 + automaton.occurring.card * (done + 1) := by
  rw [Nat.mul_succ]
  omega

/-- A new transition keeps the count, whether it is dead or goes into the table. -/
theorem Frugal.settles {matcher : Matcher} (frugal : matcher.Frugal) {source : Nat}
    {range : CharRange} {settled : List (Nat × CharRange)} (new : (source, range) ∉ matcher.settled)
    (part : range ∈ matcher.alphabet.ranges)
    (perm : settled.Perm ((source, range) :: matcher.settled)) :
    settled.Nodup ∧ (∀ entry ∈ settled, entry.2 ∈ matcher.alphabet.ranges) ∧
      settled.length = matcher.settled.length + 1 := by
  refine ⟨perm.nodup_iff.2 (List.nodup_cons.2 ⟨new, frugal.once⟩), ?_, perm.length_eq⟩
  intro entry member
  rcases List.mem_cons.1 (perm.mem_iff.1 member) with rfl | old
  · exact part
  · exact frugal.parts entry old

theorem locate_irredundant (matcher : Matcher) {located : Matcher} (merges : matcher.merge = true)
    {automaton : Automaton} (irredundant : matcher.registry.Irredundant automaton)
    {candidate : Configuration} (occurs : candidate.Occurs automaton) {index : Nat}
    {copies : List Instruction} (success : matcher.locate candidate = (index, copies, located)) :
    ∃ registry, located = { matcher with registry } ∧ registry.Irredundant automaton := by
  rcases locate_cases success with ⟨pairing, -, -, -, rfl⟩ | ⟨unknown, -, -, rfl⟩
  · exact ⟨_, rfl, irredundant⟩
  · exact ⟨_, rfl, irredundant.register occurs (unknown merges)⟩

theorem Learns.frugal {matcher later : Matcher} (consistent : matcher.Consistent)
    (learns : matcher.Learns later) (frugal : matcher.Frugal) : later.Frugal := by
  cases learns with
  | @transition source c range result missing found alive computed =>
    have new := not_mem_settled consistent missing found alive
    have part := Alphabet.mem_ranges_of_find? found
    obtain ⟨configuration, reached, supply, registered, advanced, effect⟩ := compute_cases computed
    obtain ⟨cost, occurs⟩ := Closure.advance_spends advanced
      (frugal.registered.occurs source configuration registered).occurring
    have names := names_step frugal.names cost
    -- A dead end and a transition alike settle one part more, which pays for the names.
    have count : ∀ settled : List (Nat × CharRange),
        settled.length = matcher.settled.length + 1 →
        1 + matcher.settled.length + matcher.acceptances.length + 1 =
          1 + settled.length + matcher.acceptances.length := by
      intro settled length
      omega
    rcases effect with ⟨-, rfl⟩ |
      ⟨candidate, instructions, target, copies, located, place, table, rfl, locates, inserted, rfl⟩
    · obtain ⟨once, parts, length⟩ := frugal.settles new part List.perm_middle
      rw [count _ length] at names
      exact ⟨frugal.merges, frugal.registered, once, parts, frugal.endsOnce, names⟩
    · obtain ⟨registry, rfl, irredundant⟩ :=
        locate_irredundant { matcher with supply } frugal.merges frugal.registered
          (occurs candidate instructions rfl) locates
      have perm := ((Table.perm_of_insert inserted).map
        fun transition => (transition.source, transition.range)).append_right matcher.dead
      obtain ⟨once, parts, length⟩ := frugal.settles new part perm
      rw [count _ length] at names
      exact ⟨frugal.merges, irredundant, once, parts, frugal.endsOnce, names⟩
  | @acceptance state found missing computed =>
    obtain ⟨configuration, reached, supply, registered, advanced, -, rfl⟩ :=
      acceptance_cases missing computed
    obtain ⟨cost, -⟩ := Closure.advance_spends advanced
      (frugal.registered.occurs state configuration registered).occurring
    have names := names_step frugal.names cost
    have new : state ∉ matcher.acceptances.map Prod.fst := by
      intro member
      obtain ⟨⟨place, known⟩, kept, rfl⟩ := List.mem_map.1 member
      have absent := List.lookup_eq_none_iff.1 missing _ kept
      simp at absent
    exact ⟨frugal.merges, frugal.registered, frugal.once, frugal.parts,
      List.nodup_cons.2 ⟨new, frugal.endsOnce⟩, names⟩

/-- A new matcher has taken a name for every tag, one for the scratch history, and those of one
step. -/
theorem frugal_of_ofAutomaton {automaton : Automaton} {matcher : Matcher}
    (made : ofAutomaton automaton true = .ok matcher) : matcher.Frugal := by
  unfold ofAutomaton at made
  obtain ⟨⟨initial, supply⟩, tags, made⟩ := Fault.of_bind_eq_ok made
  obtain ⟨⟨scratch, next⟩, parked, made⟩ := Fault.of_bind_eq_ok made
  obtain ⟨⟨reached, later⟩, advanced, made⟩ := Fault.of_bind_eq_ok made
  have issued := Supply.issued_of_freshHistories tags
  obtain ⟨-, -, rfl⟩ := (Supply.freshHistory_eq_ok_iff _ _ _).1 parked
  obtain ⟨cost, occurs⟩ := Closure.advance_spends advanced (by
    intro state member
    rw [Configuration.mem_key_ofThreads, List.map_singleton, List.mem_singleton] at member
    rw [member]
    exact automaton.initial_mem_occurring)
  have names : later.issued ≤ automaton.tags.length + 1 + automaton.occurring.card * 1 := by
    simp only [Supply.empty] at issued cost
    omega
  cases reached with
  | none =>
    obtain rfl := Except.ok.inj made
    exact ⟨rfl, Registry.irredundant_empty automaton, List.nodup_nil,
      fun entry member => absurd member List.not_mem_nil, List.nodup_nil, names⟩
  | some pair =>
    obtain ⟨configuration, instructions⟩ := pair
    obtain rfl := Except.ok.inj made
    exact ⟨rfl, (Registry.irredundant_empty automaton).register
      (occurs configuration instructions rfl) rfl, List.nodup_nil,
      fun entry member => absurd member List.not_mem_nil, List.nodup_nil, names⟩

/-- The bounds on what a matcher for the automaton keeps. None of them mentions the inputs. -/
structure Bounded (automaton : Automaton) (matcher : Matcher) : Prop where
  distinct : ∀ i j first second, matcher.registry.get? i = some first →
    matcher.registry.get? j = some second → first.MappableOnto second → i = j
  blueprints : Finite (Blueprint automaton)
  states : matcher.stateCount ≤ Nat.card (Blueprint automaton)
  alphabet : matcher.alphabet = .ofRanges automaton.inputRanges
  transitions : matcher.tableSize ≤ matcher.stateCount * matcher.alphabet.ranges.size
  names : matcher.supply.issued ≤ automaton.tags.length + 1 +
    automaton.occurring.card * (1 + matcher.stateCount * (matcher.alphabet.ranges.size + 1))

theorem HasState.lt_stateCount {matcher : Matcher} {index : Nat} {threads : List Thread}
    (has : matcher.HasState index threads) : index < matcher.stateCount := by
  obtain ⟨configuration, registered, -⟩ := has
  exact (Array.getElem?_eq_some_iff.1 registered).1

theorem get?_registry (matcher : Matcher) (index : Fin matcher.stateCount) :
    matcher.registry.get? index = some matcher.registry.configurations[index] :=
  Array.getElem?_eq_getElem index.isLt

/-- The blueprint of a state, by its index. -/
def blueprintAt {matcher : Matcher} (consistent : matcher.Consistent) (frugal : matcher.Frugal)
    (index : Fin matcher.stateCount) : Blueprint matcher.automaton :=
  matcher.registry.configurations[index].blueprint
    (frugal.registered.occurs _ _ (matcher.get?_registry index))
    (consistent.named _ _ (matcher.get?_registry index)).distinct

/-- Different states have different blueprints. -/
theorem blueprintAt_injective {matcher : Matcher} (consistent : matcher.Consistent)
    (frugal : matcher.Frugal) : Function.Injective (blueprintAt consistent frugal) := by
  intro i j same
  have mappable := Configuration.mappableOnto_of_blueprint_eq _ _ _ _
    (fun thread member =>
      ((consistent.named _ _ (matcher.get?_registry i)).named thread member).length) same
  exact Fin.ext (frugal.registered.apart i j _ _ (matcher.get?_registry i)
    (matcher.get?_registry j) mappable)

theorem stateCount_le {matcher : Matcher} (consistent : matcher.Consistent)
    (frugal : matcher.Frugal) :
    matcher.stateCount ≤ Nat.card (Blueprint matcher.automaton) := by
  have card := Nat.card_le_card_of_injective _ (blueprintAt_injective consistent frugal)
  rwa [Nat.card_eq_fintype_card, Fintype.card_fin] at card

/-- Every transition that has been computed leaves a state over a part of the alphabet. -/
theorem length_settled_le {matcher : Matcher} (consistent : matcher.Consistent)
    (frugal : matcher.Frugal) :
    matcher.settled.length ≤ matcher.stateCount * matcher.alphabet.ranges.size := by
  have inside : matcher.settled.toFinset ⊆
      Finset.range matcher.stateCount ×ˢ matcher.alphabet.ranges.toList.toFinset := by
    intro entry member
    rw [List.mem_toFinset] at member
    rw [Finset.mem_product, Finset.mem_range, List.mem_toFinset, Array.mem_toList_iff]
    refine ⟨?_, frugal.parts entry member⟩
    rcases List.mem_append.1 member with compiled | dead
    · obtain ⟨transition, inTable, rfl⟩ := List.mem_map.1 compiled
      obtain ⟨source, target, hasSource, -⟩ :=
        (consistent.faithful transition (Array.mem_toList_iff.1 inTable)).leads
      exact hasSource.lt_stateCount
    · obtain ⟨threads, has, -⟩ := consistent.dead entry.1 entry.2 dead
      exact has.lt_stateCount
  calc matcher.settled.length
      = matcher.settled.toFinset.card := (List.toFinset_card_of_nodup frugal.once).symm
    _ ≤ matcher.stateCount * matcher.alphabet.ranges.toList.toFinset.card := by
        have card := Finset.card_le_card inside
        rwa [Finset.card_product, Finset.card_range] at card
    _ ≤ matcher.stateCount * matcher.alphabet.ranges.size :=
        Nat.mul_le_mul_left _ (List.toFinset_card_le _)

/-- A match ends at most once for the first time in every state. -/
theorem length_acceptances_le {matcher : Matcher} (consistent : matcher.Consistent)
    (frugal : matcher.Frugal) : matcher.acceptances.length ≤ matcher.stateCount := by
  have inside : (matcher.acceptances.map Prod.fst).toFinset ⊆ Finset.range matcher.stateCount := by
    intro state member
    obtain ⟨⟨place, found⟩, kept, rfl⟩ := List.mem_map.1 (List.mem_toFinset.1 member)
    obtain ⟨threads, has, -⟩ := consistent.ends place found kept
    exact Finset.mem_range.2 has.lt_stateCount
  have card := Finset.card_le_card inside
  rwa [List.toFinset_card_of_nodup frugal.endsOnce, List.length_map, Finset.card_range] at card

theorem Frugal.bounded {matcher : Matcher} (frugal : matcher.Frugal)
    (consistent : matcher.Consistent) : matcher.Bounded matcher.automaton := by
  have transitions := length_settled_le consistent frugal
  have acceptances := length_acceptances_le consistent frugal
  refine ⟨frugal.registered.apart, inferInstance, stateCount_le consistent frugal,
    consistent.alphabet, ?_, ?_⟩
  · refine Nat.le_trans ?_ transitions
    rw [settled, List.length_append, List.length_map, Array.length_toList]
    exact Nat.le_add_right _ _
  · refine Nat.le_trans frugal.names (Nat.add_le_add_left (Nat.mul_le_mul_left _ ?_) _)
    rw [Nat.mul_succ]
    omega

end Matcher

/-- A matcher that merges keeps finitely many states, whatever it is given to read: no two of them
are mappable onto each other, so there are no more than blueprints. The size of the table and the
number of names that are handed out depend on nothing but the automaton and the number of states. -/
theorem Automaton.matcher_bounded (builder : Builder) (automaton : Automaton)
    (built : builder.build = .ok automaton) (entire : ∃ group ∈ automaton.groups, group.number = 0)
    (inputs : List String)
    (enough : automaton.results true inputs ≠ .error .historiesExhausted) :
    ∃ matcher results later, Matcher.ofAutomaton automaton true = .ok matcher ∧
      matcher.matchInputs inputs = .ok (results, later) ∧ later.Bounded automaton := by
  obtain ⟨matcher, results, later, made, consistent, same, success⟩ :=
    exists_run built entire enough
  refine ⟨matcher, results, later, made, success, ?_⟩
  obtain ⟨laterConsistent, laterSame, frugal⟩ :=
    (Matcher.matchInputs_grows success).preserves consistent
      (Matcher.frugal_of_ofAutomaton made) fun early next earlyConsistent learns early =>
        learns.frugal earlyConsistent early
  have bounded := frugal.bounded laterConsistent
  rwa [laterSame, same] at bounded

/-- Dead ends, merged states and an acceptance on the way. -/
theorem Automaton.matcher_bounded_cyclic :
    ∃ matcher results later,
      Matcher.ofAutomaton ⟨Builder.cyclic.rows, ⟨0⟩, ⟨2⟩, Builder.cyclic.groups⟩ true =
        .ok matcher ∧
      matcher.matchInputs ["fg", "g", "gggf", "A"] = .ok (results, later) ∧
      later.Bounded ⟨Builder.cyclic.rows, ⟨0⟩, ⟨2⟩, Builder.cyclic.groups⟩ := by
  apply matcher_bounded Builder.cyclic _ (by cbv)
  · exact ⟨.entireMatch, by decide, rfl⟩
  · apply Fault.ne_error_of_isOk
    cbv

end TaggedRegex
