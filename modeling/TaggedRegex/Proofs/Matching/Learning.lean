import Mathlib.Logic.Relation
import TaggedRegex.Proofs.Matching.Refinement

set_option autoImplicit false

/-!
How a matcher changes while inputs are read: it learns one transition or one acceptance after the
other, each of which it did not know.
-/

namespace TaggedRegex

theorem Registry.get?_of_get_eq_ok {registry : Registry} {index : Nat}
    {configuration : Configuration} (success : registry.get index = .ok configuration) :
    registry.get? index = some configuration := by
  unfold get at success
  split at success
  · rename_i found
    rw [found, Except.ok.inj success]
  · cases success

namespace Matcher

/-- A configuration is replaced by a known one, or it is registered. -/
theorem locate_cases {matcher located : Matcher} {candidate : Configuration} {index : Nat}
    {copies : List Instruction} (success : matcher.locate candidate = (index, copies, located)) :
    (∃ pairing, matcher.merge = true ∧
      matcher.registry.findRenaming? candidate = some (index, pairing) ∧
      copies = pairing.instructions matcher.scratch ∧ located = matcher) ∨
    (matcher.merge = true → matcher.registry.findRenaming? candidate = none) ∧
      index = matcher.registry.configurations.size ∧ copies = [] ∧
      located = { matcher with registry := (matcher.registry.register candidate).2 } := by
  unfold locate at success
  dsimp only at success
  split at success
  · rename_i known renamed
    obtain ⟨rfl, rfl, rfl⟩ := by simpa only [Prod.mk.injEq] using success
    left
    split at renamed
    · rename_i merge
      exact ⟨_, merge, renamed, rfl, rfl⟩
    · cases renamed
  · rename_i unknown
    obtain ⟨rfl, rfl, rfl⟩ := by simpa only [Prod.mk.injEq] using success
    right
    refine ⟨fun merge => ?_, rfl, rfl, rfl⟩
    rwa [if_pos merge] at unknown

/-- All that computing a transition does: it finds a dead end, or it locates the configuration that
is reached and puts the transition into the table. -/
theorem compute_cases {matcher later : Matcher} {source : Nat} {c : Char} {range : CharRange}
    {result : Option Transition}
    (success : matcher.compute source c range = .ok (result, later)) :
    ∃ configuration reached supply, matcher.registry.get? source = some configuration ∧
      Closure.advance matcher.automaton configuration (.char c) matcher.supply =
        .ok (reached, supply) ∧
      ((reached = none ∧
          later = { matcher with supply, dead := (source, range) :: matcher.dead }) ∨
        ∃ candidate instructions target copies located place table,
          reached = some (candidate, instructions) ∧
          ({ matcher with supply } : Matcher).locate candidate = (target, copies, located) ∧
          located.table.insert ⟨source, range, target, instructions ++ copies⟩ =
            .ok (place, table) ∧
          later = { located with table }) := by
  unfold compute at success
  obtain ⟨configuration, registered, success⟩ := Fault.of_bind_eq_ok success
  obtain ⟨⟨reached, supply⟩, advanced, success⟩ := Fault.of_bind_eq_ok success
  refine ⟨configuration, reached, supply, Registry.get?_of_get_eq_ok registered, advanced, ?_⟩
  cases reached with
  | none =>
    obtain ⟨-, rfl⟩ := Prod.mk.inj (Except.ok.inj success)
    exact Or.inl ⟨rfl, rfl⟩
  | some pair =>
    obtain ⟨candidate, instructions⟩ := pair
    obtain ⟨⟨place, table⟩, inserted, success⟩ := Fault.of_bind_eq_ok success
    obtain ⟨-, rfl⟩ := Prod.mk.inj (Except.ok.inj success)
    exact Or.inr ⟨candidate, instructions, _, _, _, place, table, rfl, rfl, inserted, rfl⟩

/-- All that computing an acceptance does. -/
theorem acceptance_cases {matcher later : Matcher} {state : Nat} {found : Option Acceptance}
    (missing : matcher.acceptances.lookup state = none)
    (success : matcher.acceptance state = .ok (found, later)) :
    ∃ configuration reached supply, matcher.registry.get? state = some configuration ∧
      Closure.advance matcher.automaton configuration .finish matcher.supply =
        .ok (reached, supply) ∧
      (found = reached.bind fun (configuration, instructions) =>
        (configuration.historiesOf? matcher.automaton.accept).map fun histories =>
          Acceptance.mk instructions histories) ∧
      later = { matcher with supply, acceptances := (state, found) :: matcher.acceptances } := by
  unfold acceptance at success
  rw [missing] at success
  obtain ⟨configuration, registered, success⟩ := Fault.of_bind_eq_ok success
  obtain ⟨⟨reached, supply⟩, advanced, success⟩ := Fault.of_bind_eq_ok success
  obtain ⟨rfl, rfl⟩ := Prod.mk.inj (Except.ok.inj success)
  exact ⟨configuration, reached, supply, Registry.get?_of_get_eq_ok registered, advanced, rfl, rfl⟩

/-- One thing is added to what a matcher knows: where a character leads from a state, or how a match
ends in a state. -/
inductive Learns (matcher : Matcher) : Matcher → Prop where
  | transition {later : Matcher} {source : Nat} {c : Char} {range : CharRange}
      {result : Option Transition} (missing : matcher.table.get? source c = none)
      (found : matcher.alphabet.find? c = some range) (alive : (source, range) ∉ matcher.dead)
      (computed : matcher.compute source c range = .ok (result, later)) : matcher.Learns later
  | acceptance {later : Matcher} {state : Nat} {found : Option Acceptance}
      (missing : matcher.acceptances.lookup state = none)
      (computed : matcher.acceptance state = .ok (found, later)) : matcher.Learns later

/-- Any number of things are added, one after the other. -/
def Grows : Matcher → Matcher → Prop := Relation.ReflTransGen Learns

theorem Grows.refl (matcher : Matcher) : matcher.Grows matcher := Relation.ReflTransGen.refl

theorem Grows.trans {first second third : Matcher} (early : first.Grows second)
    (late : second.Grows third) : first.Grows third := Relation.ReflTransGen.trans early late

theorem Learns.grows {matcher later : Matcher} (learns : matcher.Learns later) :
    matcher.Grows later := Relation.ReflTransGen.single learns

theorem transition_grows {matcher later : Matcher} {source : Nat} {c : Char}
    {result : Option Transition} (success : matcher.transition source c = .ok (result, later)) :
    matcher.Grows later := by
  unfold transition at success
  split at success
  · obtain ⟨-, rfl⟩ := Prod.mk.inj (Except.ok.inj success)
    exact .refl matcher
  · rename_i missing
    split at success
    · obtain ⟨-, rfl⟩ := Prod.mk.inj (Except.ok.inj success)
      exact .refl matcher
    · rename_i range found
      split at success
      · obtain ⟨-, rfl⟩ := Prod.mk.inj (Except.ok.inj success)
        exact .refl matcher
      · rename_i alive
        exact (Learns.transition missing found alive success).grows

theorem follow_grows {input : List Char} {matcher later : Matcher} {state : Nat} {memory : Memory}
    {position : Int} {reached : Option (Nat × Memory)}
    (success : matcher.follow state memory position input = .ok (reached, later)) :
    matcher.Grows later := by
  induction input generalizing matcher state memory position with
  | nil =>
    obtain ⟨-, rfl⟩ := Prod.mk.inj (Except.ok.inj success)
    exact .refl matcher
  | cons c rest ih =>
    rw [follow] at success
    split at success
    · cases success
    · rename_i next found
      obtain ⟨-, rfl⟩ := Prod.mk.inj (Except.ok.inj success)
      exact transition_grows found
    · rename_i transition next found
      split at success
      · cases success
      · exact (transition_grows found).trans (ih success)

theorem acceptance_grows {matcher later : Matcher} {state : Nat} {found : Option Acceptance}
    (success : matcher.acceptance state = .ok (found, later)) : matcher.Grows later := by
  cases kept : matcher.acceptances.lookup state with
  | some known =>
    rw [acceptance, kept] at success
    obtain ⟨-, rfl⟩ := Prod.mk.inj (Except.ok.inj success)
    exact .refl matcher
  | none => exact (Learns.acceptance kept success).grows

theorem conclude_grows {matcher later : Matcher} {state : Nat} {memory : Memory} {position : Int}
    {result : MatchResult}
    (success : matcher.conclude state memory position = .ok (result, later)) :
    matcher.Grows later := by
  unfold conclude at success
  obtain ⟨⟨found, next⟩, accepted, success⟩ := Fault.of_bind_eq_ok success
  have grows := acceptance_grows accepted
  cases found with
  | none =>
    obtain ⟨-, rfl⟩ := Prod.mk.inj (Except.ok.inj success)
    exact grows
  | some acceptance =>
    obtain ⟨after, -, success⟩ := Fault.of_bind_eq_ok success
    obtain ⟨groups, -, success⟩ := Fault.of_bind_eq_ok success
    obtain ⟨captures, -, success⟩ := Fault.of_bind_eq_ok success
    obtain ⟨-, rfl⟩ := Prod.mk.inj (Except.ok.inj success)
    exact grows

theorem matchInput_grows {matcher later : Matcher} {input : String} {result : MatchResult}
    (success : matcher.matchInput input = .ok (result, later)) : matcher.Grows later := by
  unfold matchInput at success
  split at success
  · obtain ⟨-, rfl⟩ := Prod.mk.inj (Except.ok.inj success)
    exact .refl matcher
  · obtain ⟨memory, -, success⟩ := Fault.of_bind_eq_ok success
    obtain ⟨⟨reached, next⟩, followed, success⟩ := Fault.of_bind_eq_ok success
    have grows := follow_grows followed
    cases reached with
    | none =>
      obtain ⟨-, rfl⟩ := Prod.mk.inj (Except.ok.inj success)
      exact grows
    | some pair => exact grows.trans (conclude_grows success)

theorem matchInputs_grows {inputs : List String} {matcher later : Matcher}
    {results : List MatchResult} (success : matcher.matchInputs inputs = .ok (results, later)) :
    matcher.Grows later := by
  induction inputs generalizing matcher results with
  | nil =>
    obtain ⟨-, rfl⟩ := Prod.mk.inj (Except.ok.inj success)
    exact .refl matcher
  | cons input rest ih =>
    rw [matchInputs] at success
    obtain ⟨⟨result, next⟩, matched, success⟩ := Fault.of_bind_eq_ok success
    obtain ⟨⟨others, last⟩, matchedRest, success⟩ := Fault.of_bind_eq_ok success
    obtain ⟨-, rfl⟩ := Prod.mk.inj (Except.ok.inj success)
    exact (matchInput_grows matched).trans (ih matchedRest)

/-- What a matcher learns is right. -/
theorem Learns.consistent {matcher later : Matcher} (learns : matcher.Learns later)
    (consistent : matcher.Consistent) :
    later.Consistent ∧ later.automaton = matcher.automaton := by
  cases learns with
  | transition missing found alive computed =>
    obtain ⟨configuration, reached, supply, registered, -, -⟩ := compute_cases computed
    rcases compute_spec consistent ⟨configuration, registered, rfl⟩ missing found with
      exhausted | ⟨result, next, success, steps⟩
    · rw [exhausted] at computed
      cases computed
    · obtain ⟨-, rfl⟩ := Prod.mk.inj (Except.ok.inj (success.symm.trans computed))
      exact ⟨steps.consistent, steps.automaton⟩
  | acceptance missing computed =>
    obtain ⟨configuration, reached, supply, registered, -, -⟩ := acceptance_cases missing computed
    rcases acceptance_spec consistent ⟨configuration, registered, rfl⟩ with
      exhausted | ⟨found, next, success, nextConsistent, same, -⟩
    · rw [exhausted] at computed
      cases computed
    · obtain ⟨-, rfl⟩ := Prod.mk.inj (Except.ok.inj (success.symm.trans computed))
      exact ⟨nextConsistent, same⟩

theorem Grows.consistent {matcher later : Matcher} (grows : matcher.Grows later)
    (consistent : matcher.Consistent) : later.Consistent := by
  induction grows with
  | refl => exact consistent
  | tail early learns ih => exact (learns.consistent ih).1

/-- An invariant that one step of learning preserves holds for as long as the matcher is used. -/
theorem Grows.preserves {matcher later : Matcher} (grows : matcher.Grows later)
    (consistent : matcher.Consistent) {invariant : Matcher → Prop} (holds : invariant matcher)
    (step : ∀ early next : Matcher, early.Consistent → early.Learns next → invariant early →
      invariant next) :
    later.Consistent ∧ later.automaton = matcher.automaton ∧ invariant later := by
  induction grows with
  | refl => exact ⟨consistent, rfl, holds⟩
  | tail early learns ih =>
    obtain ⟨middleConsistent, same, middleHolds⟩ := ih
    obtain ⟨lastConsistent, sameAgain⟩ := learns.consistent middleConsistent
    exact ⟨lastConsistent, sameAgain.trans same, step _ _ middleConsistent learns middleHolds⟩

end Matcher

end TaggedRegex
