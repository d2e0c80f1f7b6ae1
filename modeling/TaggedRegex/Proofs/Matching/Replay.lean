import TaggedRegex.Proofs.Growth.Bounds
import TaggedRegex.Proofs.Matching.Paths

set_option autoImplicit false

/-!
A matcher never forgets. Whatever inputs it reads, its states, transitions, dead ends and
acceptances stay what they are, and an input that it has read before gives the same result again
without anything being computed.
-/

namespace TaggedRegex

namespace Matcher

variable {matcher later last : Matcher}

/-- Everything that the matcher knows is known to the later one, unaltered: the same configuration
under every number, the same transitions in the same order, the same dead ends and the same
acceptances. Names are only handed out, and what was fixed at the beginning stays fixed. -/
structure Keeps (matcher later : Matcher) : Prop where
  automaton : later.automaton = matcher.automaton
  merge : later.merge = matcher.merge
  alphabet : later.alphabet = matcher.alphabet
  initial : later.initial = matcher.initial
  scratch : later.scratch = matcher.scratch
  start : later.start = matcher.start
  issued : matcher.supply.issued ≤ later.supply.issued
  registered : matcher.registry.configurations.toList <+: later.registry.configurations.toList
  compiled : matcher.table.transitions.toList.Sublist later.table.transitions.toList
  dead : matcher.dead ⊆ later.dead
  accepted : ∀ state found, matcher.acceptances.lookup state = some found →
    later.acceptances.lookup state = some found

theorem Keeps.refl (matcher : Matcher) : matcher.Keeps matcher :=
  ⟨rfl, rfl, rfl, rfl, rfl, rfl, Nat.le_refl _, List.prefix_rfl, List.Sublist.refl _,
    List.Subset.refl _, fun _ _ known => known⟩

theorem Keeps.trans (early : matcher.Keeps later) (late : later.Keeps last) :
    matcher.Keeps last :=
  ⟨late.automaton.trans early.automaton, late.merge.trans early.merge,
    late.alphabet.trans early.alphabet, late.initial.trans early.initial,
    late.scratch.trans early.scratch, late.start.trans early.start,
    Nat.le_trans early.issued late.issued, early.registered.trans late.registered,
    early.compiled.trans late.compiled, fun _ member => late.dead (early.dead member),
    fun state found known => late.accepted state found (early.accepted state found known)⟩

/-- Names that a step hands out are new ones. -/
theorem Consistent.issued_le (consistent : matcher.Consistent) {index : Nat}
    {configuration : Configuration} (registered : matcher.registry.get? index = some configuration)
    {step : Step} (moves : step ≠ .start) {reached : Option (Configuration × List Instruction)}
    {supply : Supply}
    (advanced : Closure.advance matcher.automaton configuration step matcher.supply =
      .ok (reached, supply)) : matcher.supply.issued ≤ supply.issued := by
  have named := consistent.named index configuration registered
  obtain exhausted | ⟨result, next, success, le, -⟩ :=
    Closure.advance_simulated step consistent.tagged named consistent.waiting
      fun start => absurd start moves
  · rw [exhausted] at advanced
    cases advanced
  · obtain ⟨-, rfl⟩ := Prod.mk.inj (Except.ok.inj (success.symm.trans advanced))
    exact le

theorem locate_keeps {candidate : Configuration} {index : Nat} {copies : List Instruction}
    (success : matcher.locate candidate = (index, copies, later)) :
    ∃ registry, later = { matcher with registry } ∧
      matcher.registry.configurations.toList <+: registry.configurations.toList := by
  obtain ⟨pairing, -, -, -, rfl⟩ | ⟨-, -, -, rfl⟩ := locate_cases success
  · exact ⟨_, rfl, List.prefix_rfl⟩
  · refine ⟨_, rfl, ?_⟩
    rw [Registry.register, Array.toList_push]
    exact List.prefix_append _ _

theorem Learns.keeps (learns : matcher.Learns later) (consistent : matcher.Consistent) :
    matcher.Keeps later := by
  cases learns with
  | transition missing found alive computed =>
    obtain ⟨configuration, reached, supply, registered, advanced, effect⟩ := compute_cases computed
    have le := consistent.issued_le registered (by nofun) advanced
    rcases effect with ⟨-, rfl⟩ |
      ⟨candidate, instructions, target, copies, located, place, table, -, locates, inserted, rfl⟩
    · exact { Keeps.refl matcher with issued := le, dead := List.subset_cons_self _ _ }
    · obtain ⟨registry, rfl, extends_registry⟩ := locate_keeps locates
      exact { Keeps.refl matcher with
        issued := le
        registered := extends_registry
        compiled := Table.sublist_of_insert inserted }
  | @acceptance state found missing computed =>
    obtain ⟨configuration, reached, supply, registered, advanced, -, rfl⟩ :=
      acceptance_cases missing computed
    have le := consistent.issued_le registered (by nofun) advanced
    refine { Keeps.refl matcher with issued := le, accepted := ?_ }
    intro other known before
    have different : (other == state) = false := by
      rw [beq_eq_false_iff_ne]
      rintro rfl
      rw [missing] at before
      cases before
    rw [List.lookup_cons, different]
    exact before

theorem Grows.keeps (grows : matcher.Grows later) (consistent : matcher.Consistent) :
    matcher.Keeps later := by
  induction grows with
  | refl => exact .refl matcher
  | tail early learns ih => exact ih.trans (learns.keeps (Grows.consistent early consistent))

/-! ### What is known is not computed again -/

/-- No dead end is a transition of the table. -/
def DeadApart (matcher : Matcher) : Prop :=
  ∀ transition ∈ matcher.table.transitions,
    (transition.source, transition.range) ∉ matcher.dead

theorem Learns.deadApart (learns : matcher.Learns later) (consistent : matcher.Consistent)
    (apart : matcher.DeadApart) : later.DeadApart := by
  cases learns with
  | @transition source c range result missing found alive computed =>
    obtain ⟨configuration, reached, supply, registered, advanced, effect⟩ := compute_cases computed
    rcases effect with ⟨-, rfl⟩ |
      ⟨candidate, instructions, target, copies, located, place, table, -, locates, inserted, rfl⟩
    · intro transition member dead
      rcases List.mem_cons.1 dead with same | old
      · have new := not_mem_settled consistent missing found alive
        rw [← same] at new
        exact new (List.mem_append_left _
          (List.mem_map_of_mem (Array.mem_toList_iff.2 member)))
      · exact apart transition member old
    · obtain ⟨registry, rfl, -⟩ := locate_keeps locates
      have perm := Table.perm_of_insert inserted
      intro transition member
      rcases List.mem_cons.1 (perm.mem_iff.1 (Array.mem_toList_iff.2 member)) with rfl | old
      · exact alive
      · exact apart transition (Array.mem_toList_iff.1 old)
  | @acceptance state found missing computed =>
    obtain ⟨configuration, reached, supply, registered, advanced, -, rfl⟩ :=
      acceptance_cases missing computed
    exact apart

/-- A transition is found on the characters of its part of the alphabet only. -/
theorem Consistent.find?_of_get? (consistent : matcher.Consistent) {source : Nat} {c : Char}
    {transition : Transition} (known : matcher.table.get? source c = some transition) :
    matcher.alphabet.find? c = some transition.range := by
  obtain ⟨member, -, inside⟩ := Table.of_get?_eq_some known
  obtain ⟨d, part⟩ := (consistent.faithful transition member).part
  rw [consistent.alphabet] at part ⊢
  exact Alphabet.find?_eq_of_mem part inside

/-- What is computed is kept, as a transition or as a dead end. -/
theorem compute_remembers {source : Nat} {c : Char} {range : CharRange}
    {result : Option Transition}
    (success : matcher.compute source c range = .ok (result, later)) :
    match result with
    | none => (source, range) ∈ later.dead
    | some transition => transition ∈ later.table.transitions ∧ transition.source = source ∧
        transition.range = range := by
  unfold compute at success
  obtain ⟨configuration, -, success⟩ := Fault.of_bind_eq_ok success
  obtain ⟨⟨reached, supply⟩, -, success⟩ := Fault.of_bind_eq_ok success
  cases reached with
  | none =>
    obtain ⟨rfl, rfl⟩ := Prod.mk.inj (Except.ok.inj success)
    exact List.mem_cons_self
  | some pair =>
    obtain ⟨candidate, instructions⟩ := pair
    obtain ⟨⟨place, table⟩, inserted, success⟩ := Fault.of_bind_eq_ok success
    obtain ⟨rfl, rfl⟩ := Prod.mk.inj (Except.ok.inj success)
    refine ⟨Array.mem_toList_iff.1 ?_, rfl, rfl⟩
    exact (Table.perm_of_insert inserted).mem_iff.2 List.mem_cons_self

/-- A later matcher that may be used for what an earlier one has done. -/
structure Recalls (matcher later : Matcher) : Prop where
  keeps : matcher.Keeps later
  consistent : later.Consistent
  apart : later.DeadApart

theorem Recalls.of_grows (recalls : later.Recalls last) (consistent : matcher.Consistent)
    (grows : matcher.Grows later) : matcher.Recalls last :=
  ⟨(grows.keeps consistent).trans recalls.keeps, recalls.consistent, recalls.apart⟩

theorem Recalls.get?_eq_some (recalls : matcher.Recalls later) {transition : Transition}
    (member : transition ∈ matcher.table.transitions) {c : Char} (inside : c ∈ transition.range) :
    later.table.get? transition.source c = some transition :=
  recalls.consistent.sorted.get?_eq_some
    (Array.mem_toList_iff.1 (recalls.keeps.compiled.subset (Array.mem_toList_iff.2 member))) inside

/-- On a dead end, and outside the alphabet, the table stays silent. -/
theorem Recalls.get?_eq_none (recalls : matcher.Recalls later) {source : Nat} {c : Char}
    (nowhere : ∀ range, matcher.alphabet.find? c = some range → (source, range) ∈ matcher.dead) :
    later.table.get? source c = none := by
  by_contra known
  obtain ⟨transition, known⟩ := Option.ne_none_iff_exists'.1 known
  obtain ⟨member, rfl, -⟩ := Table.of_get?_eq_some known
  have part := recalls.consistent.find?_of_get? known
  rw [recalls.keeps.alphabet] at part
  exact recalls.apart transition member (recalls.keeps.dead (nowhere transition.range part))

/-- A character that leads nowhere is not computed again. -/
theorem Recalls.transition_eq_none (recalls : matcher.Recalls later) {source : Nat} {c : Char}
    (nowhere : ∀ range, matcher.alphabet.find? c = some range → (source, range) ∈ matcher.dead) :
    later.transition source c = .ok (none, later) := by
  rw [transition, recalls.get?_eq_none nowhere, recalls.keeps.alphabet]
  cases found : matcher.alphabet.find? c with
  | none => rfl
  | some range => exact if_pos (recalls.keeps.dead (nowhere range found))

theorem transition_again (consistent : matcher.Consistent) {source : Nat} {c : Char}
    {result : Option Transition} (success : matcher.transition source c = .ok (result, later))
    (recalls : later.Recalls last) : last.transition source c = .ok (result, last) := by
  have alphabet := ((transition_grows success).keeps consistent).alphabet
  have again : ∀ found : Transition, found ∈ later.table.transitions → found.source = source →
      c ∈ found.range → last.transition source c = .ok (some found, last) := by
    rintro found member rfl inside
    rw [transition, recalls.get?_eq_some member inside]
  unfold transition at success
  split at success
  · rename_i known hit
    obtain ⟨rfl, rfl⟩ := Prod.mk.inj (Except.ok.inj success)
    obtain ⟨member, source_eq, inside⟩ := Table.of_get?_eq_some hit
    exact again known member source_eq inside
  · split at success
    · rename_i outside
      obtain ⟨rfl, rfl⟩ := Prod.mk.inj (Except.ok.inj success)
      apply recalls.transition_eq_none
      intro range found
      rw [outside] at found
      cases found
    · rename_i range found
      split at success
      · rename_i dead
        obtain ⟨rfl, rfl⟩ := Prod.mk.inj (Except.ok.inj success)
        apply recalls.transition_eq_none
        intro part foundPart
        rwa [← Option.some.inj (found.symm.trans foundPart)]
      · have kept := compute_remembers success
        cases result with
        | none =>
          apply recalls.transition_eq_none
          intro part foundPart
          rw [alphabet, found] at foundPart
          rwa [← Option.some.inj foundPart]
        | some transition =>
          obtain ⟨member, source_eq, rfl⟩ := kept
          exact again transition member source_eq (Alphabet.mem_of_find? _ _ _ found)

/-- The characters are followed from state to state as they were the first time. -/
theorem follow_again (input : List Char) (consistent : matcher.Consistent) {state : Nat}
    {memory : Memory} {position : Int} {reached : Option (Nat × Memory)}
    (success : matcher.follow state memory position input = .ok (reached, later))
    (recalls : later.Recalls last) :
    last.follow state memory position input = .ok (reached, last) := by
  induction input generalizing matcher state memory position with
  | nil =>
    obtain ⟨rfl, -⟩ := Prod.mk.inj (Except.ok.inj success)
    rfl
  | cons c rest ih =>
    rw [follow] at success ⊢
    split at success
    · cases success
    · rename_i next stuck
      obtain ⟨rfl, rfl⟩ := Prod.mk.inj (Except.ok.inj success)
      rw [transition_again consistent stuck recalls]
    · rename_i transition next moved
      split at success
      · cases success
      · rename_i after performed
        have nextConsistent := (transition_grows moved).consistent consistent
        have onwards := recalls.of_grows nextConsistent (follow_grows success)
        rw [transition_again consistent moved onwards]
        dsimp only
        rw [performed]
        exact ih nextConsistent success

theorem acceptance_again {state : Nat} {found : Option Acceptance}
    (success : matcher.acceptance state = .ok (found, later)) (recalls : later.Recalls last) :
    last.acceptance state = .ok (found, last) := by
  have known : later.acceptances.lookup state = some found := by
    cases before : matcher.acceptances.lookup state with
    | some known =>
      rw [acceptance, before] at success
      obtain ⟨rfl, rfl⟩ := Prod.mk.inj (Except.ok.inj success)
      exact before
    | none =>
      obtain ⟨configuration, reached, supply, -, -, -, rfl⟩ := acceptance_cases before success
      exact List.lookup_cons_self
  rw [acceptance, recalls.keeps.accepted state found known]

theorem conclude_again {state : Nat} {memory : Memory} {position : Int} {result : MatchResult}
    (success : matcher.conclude state memory position = .ok (result, later))
    (recalls : later.Recalls last) :
    last.conclude state memory position = .ok (result, last) := by
  unfold conclude at success ⊢
  obtain ⟨⟨found, next⟩, accepted, success⟩ := Fault.of_bind_eq_ok success
  cases found with
  | none =>
    obtain ⟨rfl, rfl⟩ := Prod.mk.inj (Except.ok.inj success)
    rw [acceptance_again accepted recalls]
    rfl
  | some acceptance =>
    obtain ⟨after, performed, success⟩ := Fault.of_bind_eq_ok success
    obtain ⟨groups, spelled, success⟩ := Fault.of_bind_eq_ok success
    obtain ⟨captures, gathered, success⟩ := Fault.of_bind_eq_ok success
    obtain ⟨rfl, rfl⟩ := Prod.mk.inj (Except.ok.inj success)
    rw [acceptance_again accepted recalls]
    show (memory.performAll position acceptance.instructions >>= _) = _
    rw [performed]
    show (last.automaton.groups.mapM (spans last.automaton after acceptance.histories) >>= _) = _
    rw [recalls.keeps.automaton, spelled]
    show (Captures.ofGroups groups >>= _) = _
    rw [gathered]
    rfl

/-- An input that has been read before gives the same result without a computation. -/
theorem matchInput_again (consistent : matcher.Consistent) {input : String} {result : MatchResult}
    (success : matcher.matchInput input = .ok (result, later)) (recalls : later.Recalls last) :
    last.matchInput input = .ok (result, last) := by
  have keeps := ((matchInput_grows success).keeps consistent).trans recalls.keeps
  unfold matchInput at success ⊢
  rw [keeps.start]
  split at success
  · obtain ⟨rfl, -⟩ := Prod.mk.inj (Except.ok.inj success)
    rfl
  · obtain ⟨memory, begun, success⟩ := Fault.of_bind_eq_ok success
    obtain ⟨⟨reached, next⟩, followed, success⟩ := Fault.of_bind_eq_ok success
    dsimp only
    rw [keeps.initial, begun]
    show (last.follow _ memory 0 input.toList >>= _) = _
    have nextConsistent := (follow_grows followed).consistent consistent
    cases reached with
    | none =>
      obtain ⟨rfl, rfl⟩ := Prod.mk.inj (Except.ok.inj success)
      rw [follow_again input.toList consistent followed recalls]
      rfl
    | some pair =>
      have onwards := recalls.of_grows nextConsistent (conclude_grows success)
      rw [follow_again input.toList consistent followed onwards]
      exact conclude_again success recalls

/-- Whatever a matcher learns, dead ends and transitions stay apart, so it may be used for what it
has done before. -/
theorem Grows.recalls (grows : matcher.Grows later) (consistent : matcher.Consistent)
    (apart : matcher.DeadApart) : matcher.Recalls later := by
  obtain ⟨laterConsistent, -, laterApart⟩ := grows.preserves consistent apart
    fun _ _ nextConsistent learns nextApart => learns.deadApart nextConsistent nextApart
  exact ⟨grows.keeps consistent, laterConsistent, laterApart⟩

/-- A new matcher has no dead ends. -/
theorem deadApart_of_ofAutomaton {automaton : Automaton} {merge : Bool}
    (made : ofAutomaton automaton merge = .ok matcher) : matcher.DeadApart := by
  unfold ofAutomaton at made
  obtain ⟨⟨initial, supply⟩, -, made⟩ := Fault.of_bind_eq_ok made
  obtain ⟨⟨scratch, next⟩, -, made⟩ := Fault.of_bind_eq_ok made
  obtain ⟨⟨reached, later⟩, -, made⟩ := Fault.of_bind_eq_ok made
  cases reached with
  | none =>
    obtain rfl := Except.ok.inj made
    exact fun _ _ => List.not_mem_nil
  | some pair =>
    obtain rfl := Except.ok.inj made
    exact fun _ _ => List.not_mem_nil

/-- A run over inputs of which the last one is looked at for itself. -/
theorem matchInputs_concat_eq_ok {earlier : List String} {input : String}
    {results : List MatchResult}
    (success : matcher.matchInputs (earlier ++ [input]) = .ok (results, later)) :
    ∃ earlierResults used result, matcher.matchInputs earlier = .ok (earlierResults, used) ∧
      used.matchInput input = .ok (result, later) := by
  rw [matchInputs_append] at success
  obtain ⟨⟨earlierResults, used⟩, early, success⟩ := Fault.of_bind_eq_ok success
  rw [matchInputs_singleton] at success
  cases matched : used.matchInput input with
  | error fault =>
    rw [matched] at success
    cases success
  | ok outcome =>
    obtain ⟨result, next⟩ := outcome
    rw [matched] at success
    obtain ⟨-, rfl⟩ := Prod.mk.inj (Except.ok.inj success)
    exact ⟨earlierResults, used, result, early, matched⟩

end Matcher

namespace Automaton

/-- A matcher of a finished automaton that has group 0 forgets nothing, whichever input it reads
after whichever others. Once it has read an input, it gives the same result on it after any further
inputs, and then it stays exactly as it is. -/
theorem knowledge_kept_and_replayed (builder : Builder) (automaton : Automaton)
    (built : builder.build = .ok automaton) (entire : ∃ group ∈ automaton.groups, group.number = 0)
    (merge : Bool) (earlier : List String) (input : String)
    (enough : automaton.results merge (earlier ++ [input]) ≠ .error .historiesExhausted) :
    ∃ matcher earlierResults used result later,
      Matcher.ofAutomaton automaton merge = .ok matcher ∧
      matcher.matchInputs earlier = .ok (earlierResults, used) ∧
      used.matchInput input = .ok (result, later) ∧ used.Keeps later ∧
      ∀ further : List String, later.matchInputs further ≠ .error .historiesExhausted →
        ∃ furtherResults last, later.matchInputs further = .ok (furtherResults, last) ∧
          later.Keeps last ∧ last.matchInput input = .ok (result, last) := by
  obtain ⟨matcher, results, later, made, consistent, same, success⟩ :=
    exists_run built entire enough
  obtain ⟨earlierResults, used, result, early, matched⟩ :=
    Matcher.matchInputs_concat_eq_ok success
  have usedConsistent := (Matcher.matchInputs_grows early).consistent consistent
  have grows := Matcher.matchInputs_grows success
  have laterRecalls := grows.recalls consistent (Matcher.deadApart_of_ofAutomaton made)
  refine ⟨matcher, earlierResults, used, result, later, made, early, matched,
    (Matcher.matchInput_grows matched).keeps usedConsistent, ?_⟩
  intro further enoughFurther
  have nonempty : later.automaton.groups ≠ [] := by
    obtain ⟨group, member, -⟩ := entire
    rw [laterRecalls.keeps.automaton, same]
    exact List.ne_nil_of_mem member
  obtain exhausted | ⟨furtherResults, last, continued, -⟩ :=
    Matcher.matchInputs_spec further laterRecalls.consistent nonempty
  · exact absurd exhausted enoughFurther
  have recalls := (Matcher.matchInputs_grows continued).recalls laterRecalls.consistent
    laterRecalls.apart
  exact ⟨furtherResults, last, continued, recalls.keeps,
    Matcher.matchInput_again usedConsistent matched recalls⟩

/-- The earlier inputs end in a match, in a state that does not accept and outside the alphabet, the
input itself at a dead end. -/
theorem knowledge_kept_and_replayed_winding :
    ∃ matcher earlierResults used later furtherResults last,
      Matcher.ofAutomaton ⟨Builder.winding.rows, ⟨0⟩, ⟨2⟩, Builder.winding.groups⟩ false =
        .ok matcher ∧
      matcher.matchInputs ["fga", "", "z"] = .ok (earlierResults, used) ∧
      earlierResults.map MatchResult.histories? = [some [[], [⟨1, 2⟩]], none, none] ∧
      used.matchInput "fgt" = .ok (.noMatch, later) ∧ used.Keeps later ∧
      later.matchInputs ["ga", "fga"] = .ok (furtherResults, last) ∧ later.Keeps last ∧
      last.matchInput "fgt" = .ok (.noMatch, last) := by
  obtain ⟨matcher, earlierResults, used, result, later, made, early, matched, keeps, replays⟩ :=
    knowledge_kept_and_replayed Builder.winding
      ⟨Builder.winding.rows, ⟨0⟩, ⟨2⟩, Builder.winding.groups⟩ (by cbv)
      ⟨.entireMatch, by decide, rfl⟩ false ["fga", "", "z"] "fgt"
      (Fault.ne_error_of_isOk (by cbv) _)
  have run : ((Matcher.ofAutomaton ⟨Builder.winding.rows, ⟨0⟩, ⟨2⟩, Builder.winding.groups⟩
      false).bind fun matcher => (matcher.matchInputs ["fga", "", "z"]).bind fun early =>
        (early.2.matchInput "fgt").map fun matched =>
          (early.1.map MatchResult.histories?, matched.1.histories?,
            (matched.2.matchInputs ["ga", "fga"]).isOk)) =
      .ok ([some [[], [⟨1, 2⟩]], none, none], none, true) := by cbv
  rw [made, Except.bind, early, Except.bind, matched] at run
  have facts := Except.ok.inj run
  simp only [Prod.mk.injEq] at facts
  obtain ⟨earlierHistories, missed, enough⟩ := facts
  obtain rfl : result = .noMatch := MatchResult.histories?_injective missed
  obtain ⟨furtherResults, last, further, kept, again⟩ :=
    replays ["ga", "fga"] (Fault.ne_error_of_isOk enough _)
  exact ⟨matcher, earlierResults, used, later, furtherResults, last, made, early,
    earlierHistories, matched, keeps, further, kept, again⟩

end Automaton

end TaggedRegex
