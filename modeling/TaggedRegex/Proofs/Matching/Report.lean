import TaggedRegex.Proofs.Matching.Conclusion

set_option autoImplicit false

/-!
What a matcher reports on an input depends on nothing but the automaton: it is the report of the
walkers, whether states are merged or not and whatever was matched before.
-/

namespace TaggedRegex

namespace MatchResult

/-- The spans of every group, if there is a match. -/
def histories? : MatchResult → Option (List (List Span))
  | .noMatch => none
  | .matched captures => some captures.groups

theorem histories?_injective {first second : MatchResult}
    (same : first.histories? = second.histories?) : first = second := by
  cases first with
  | noMatch =>
    cases second with
    | noMatch => rfl
    | matched captures => cases same
  | matched captures =>
    cases second with
    | noMatch => cases same
    | matched others =>
      obtain ⟨groups, nonempty⟩ := captures
      obtain ⟨otherGroups, otherNonempty⟩ := others
      obtain rfl : groups = otherGroups := Option.some.inj same
      rfl

theorem exists_captures {result : MatchResult} {groups : List (List Span)}
    (spans : result.histories? = some groups) :
    ∃ captures, result = .matched captures ∧ captures.groups = groups := by
  cases result with
  | noMatch => cases spans
  | matched captures => exact ⟨captures, rfl, Option.some.inj spans⟩

end MatchResult

/-- The captures of a group are found under its number. -/
theorem Captures.history_eq {captures : Captures} {groups : List Group} {spans : Group → List Span}
    (same : captures.groups = groups.map spans)
    {count : Nat} (numbers : groups.map Group.number = List.range count) {group : Group}
    (member : group ∈ groups) : captures.history group.number = .ok (spans group) := by
  obtain ⟨index, inside, rfl⟩ := List.mem_iff_getElem.1 member
  have number : groups[index].number = index := by
    have bound : index < (groups.map Group.number).length := by
      rw [List.length_map]
      exact inside
    rw [← List.getElem_map Group.number (h := bound)]
    simp only [numbers, List.getElem_range]
  have here : captures.groups[index]? = some (spans groups[index]) := by
    rw [same, List.getElem?_map, List.getElem?_eq_getElem inside]
    rfl
  rw [number, Captures.history, here]

namespace Matcher

theorem spans_eq {automaton : Automaton} (tagged : automaton.WellTagged) {memory : Memory}
    {histories : List HistoryId} {trail : Trail}
    (length : histories.length = automaton.tags.length)
    (bears : Bears automaton memory histories trail) {group : Group}
    (member : group ∈ automaton.groups) :
    spans automaton memory histories group = .ok (trail.spans group) := by
  have tags : ∀ tag ∈ [group.startTag, group.endTag], tag ∈ automaton.tags :=
    fun tag inside => List.mem_flatMap.2 ⟨group, member, inside⟩
  have firsts := positions_eq tagged length bears (tags group.startTag (by simp))
  have lasts := positions_eq tagged length bears (tags group.endTag (by simp))
  rw [spans, firsts, lasts, Trail.spans_eq_zip_recorded]
  rfl

theorem mapM_eq_ok {α β : Type} {f : α → Except Fault β} {g : α → β} {xs : List α}
    (each : ∀ x ∈ xs, f x = .ok (g x)) : xs.mapM f = .ok (xs.map g) := by
  induction xs with
  | nil => rfl
  | cons x rest ih =>
    rw [List.mapM_cons, each x (List.mem_cons_self ..),
      ih fun y member => each y (List.mem_cons_of_mem _ member)]
    rfl

/-- The outcome of one input is right, and so is everything that is kept for the next one. -/
structure Answers (matcher : Matcher) (expected : Option (List (List Span))) (result : MatchResult)
    (later : Matcher) : Prop where
  histories : result.histories? = expected
  consistent : later.Consistent
  automaton : later.automaton = matcher.automaton

/-- A consistent matcher reports what the walkers find, unless it runs out of names. -/
theorem matchInput_spec {matcher : Matcher} (consistent : matcher.Consistent)
    (entire : matcher.automaton.groups ≠ []) (input : String) :
    matcher.matchInput input = .error .historiesExhausted ∨
      ∃ result later, matcher.matchInput input = .ok (result, later) ∧
        matcher.Answers (matcher.automaton.report input.toList) result later := by
  rw [matchInput_eq, Automaton.report]
  obtain exhausted | ⟨⟨found, later⟩, success, laterConsistent, same, bears⟩ :=
    conclusion_spec consistent input
  · left
    rw [exhausted]
    rfl
  · right
    rw [success]
    cases found with
    | none =>
      refine ⟨.noMatch, later, rfl, ?_, laterConsistent, same⟩
      rw [show matcher.automaton.winner? input.toList = none from bears]
      rfl
    | some pair =>
      obtain ⟨memory, histories⟩ := pair
      obtain ⟨length, winner, wins, bears⟩ := bears
      have groups : matcher.automaton.groups.mapM (spans matcher.automaton memory histories) =
          .ok (matcher.automaton.groups.map winner.trail.spans) :=
        mapM_eq_ok fun group member => spans_eq consistent.tagged length bears member
      have nonempty : matcher.automaton.groups.map winner.trail.spans ≠ [] := by
        rw [ne_eq, List.map_eq_nil_iff]
        exact entire
      refine ⟨.matched ⟨_, nonempty⟩, later, ?_, ?_, laterConsistent, same⟩
      · show account (some (memory, histories), later) = _
        rw [account, show later.automaton = matcher.automaton from same, groups]
        simp only [bind, Except.bind, Captures.ofGroups, nonempty, ne_eq, not_false_eq_true,
          dite_true]
        rfl
      · rw [wins]
        rfl

theorem freshHistories_spec (supply : Supply) (count : Nat) :
    supply.freshHistories count = .error .historiesExhausted ∨
      ∃ ids later, supply.freshHistories count = .ok (ids, later) ∧ ids.length = count ∧
        supply.issued ≤ later.issued ∧ ∀ id ∈ ids, id.index < later.issued := by
  induction count generalizing supply with
  | zero =>
    exact Or.inr ⟨[], supply, rfl, rfl, Nat.le_refl _,
      fun id member => absurd member List.not_mem_nil⟩
  | succ count ih =>
    rcases supply.freshHistory_cases with exhausted | fresh
    · left
      rw [Supply.freshHistories, exhausted]
      rfl
    · rcases ih ⟨supply.issued + 1⟩ with exhausted | ⟨ids, later, success, length, le, below⟩
      · left
        rw [Supply.freshHistories, fresh]
        show (Supply.freshHistories _ _ >>= _) = _
        rw [exhausted]
        rfl
      · right
        refine ⟨⟨supply.issued⟩ :: ids, later, ?_, ?_, ?_, ?_⟩
        · rw [Supply.freshHistories, fresh]
          show (Supply.freshHistories _ _ >>= _) = _
          rw [success]
          rfl
        · rw [List.length_cons, length]
        · exact Nat.le_trans (Nat.le_succ _) le
        · intro id member
          rcases List.mem_cons.1 member with rfl | old
          · exact le
          · exact below id old

/-- The configuration in which a matcher begins has the first names, which do not include the one
for the scratch history. -/
theorem wellNamed_seed {automaton : Automaton} {initial : List HistoryId} {supply : Supply}
    (success : Supply.empty.freshHistories automaton.tags.length = .ok (initial, supply)) :
    (Configuration.ofThreads [⟨automaton.initial, initial⟩]).WellNamed automaton ⟨supply.issued⟩
      ⟨supply.issued + 1⟩ := by
  obtain ⟨length, below⟩ : initial.length = automaton.tags.length ∧
      ∀ id ∈ initial, id.index < supply.issued := by
    rcases freshHistories_spec .empty automaton.tags.length with
      exhausted | ⟨ids, later, same, length, -, below⟩
    · rw [exhausted] at success
      cases success
    · obtain ⟨rfl, rfl⟩ := Prod.mk.inj (Except.ok.inj (same.symm.trans success))
      exact ⟨length, below⟩
  refine ⟨?_, Configuration.nodup_key_ofThreads _⟩
  intro thread member
  obtain rfl := List.mem_singleton.1 member
  refine ⟨length, fun id inside => ?_⟩
  have issued := below id inside
  refine ⟨Nat.lt_succ_of_lt issued, ?_⟩
  rintro rfl
  exact Nat.lt_irrefl _ issued

/-- A new matcher is consistent. -/
theorem ofAutomaton_spec {automaton : Automaton} (tagged : automaton.WellTagged) (merge : Bool) :
    ofAutomaton automaton merge = .error .historiesExhausted ∨
      ∃ matcher, ofAutomaton automaton merge = .ok matcher ∧ matcher.Consistent ∧
        matcher.automaton = automaton := by
  rcases freshHistories_spec .empty automaton.tags.length with
    exhausted | ⟨initial, supply, success, -, -, -⟩
  · left
    rw [ofAutomaton, exhausted]
    rfl
  rcases supply.freshHistory_cases with exhausted | fresh
  · left
    rw [ofAutomaton, success]
    show (Supply.freshHistory _ >>= _) = _
    rw [exhausted]
    rfl
  let scratch : HistoryId := ⟨supply.issued⟩
  let seed : Configuration := .ofThreads [⟨automaton.initial, initial⟩]
  have seeded : seed.threads = [⟨automaton.initial, initial⟩] := rfl
  have named : seed.WellNamed automaton scratch ⟨supply.issued + 1⟩ := wellNamed_seed success
  rcases Closure.advance_simulated .start tagged named (Nat.lt_succ_self _)
    (fun _ => ⟨_, seeded⟩) with exhausted | ⟨reached, later, advanced, le, effect⟩
  · left
    rw [ofAutomaton, success]
    show (Supply.freshHistory _ >>= _) = _
    rw [fresh]
    show (Closure.advance _ _ _ _ >>= _) = _
    rw [exhausted]
    rfl
  · right
    have blank : Carries automaton (Memory.ofBlank initial) seed.threads
        [⟨automaton.initial, []⟩] := by
      rw [seeded]
      refine List.Forall₂.cons ⟨rfl, ?_⟩ List.Forall₂.nil
      intro i tag id tagAt idAt
      exact Memory.ofBlank_holds (List.mem_of_getElem? idAt)
    let empty : Matcher :=
      { automaton, merge, initial, scratch, supply := later
        alphabet := .ofRanges automaton.inputRanges
        registry := .empty
        table := .empty
        dead := []
        start := none
        acceptances := [] }
    have none : ∀ {α : Type} {x : α}, x ∉ ([] : List α) := List.not_mem_nil
    have waiting : scratch.index < later.issued := le
    cases reached with
    | none =>
      refine ⟨empty, ?_, ?_, rfl⟩
      · rw [ofAutomaton, success]
        show (Supply.freshHistory _ >>= _) = _
        rw [fresh]
        show (Closure.advance _ _ _ _ >>= _) = _
        rw [advanced]
        rfl
      · refine ⟨tagged, rfl, waiting, fun index configuration registered => ?_, Table.sorted_empty,
          fun transition member => absurd member (Array.not_mem_empty _),
          fun source range member => absurd member none, ?_,
          fun state found member => absurd member none⟩
        · cases registered
        · exact effect (Memory.ofBlank initial) 0 _ blank
    | some pair =>
      obtain ⟨configuration, instructions⟩ := pair
      rcases effect with ⟨configurationNamed, leads⟩
      rcases leads (Memory.ofBlank initial) 0 _ blank with ⟨memory, runs, carries⟩
      refine ⟨{ empty with
        registry := (Registry.empty.register configuration).2
        start := some (0, instructions) }, ?_, ?_, rfl⟩
      · rw [ofAutomaton, success]
        show (Supply.freshHistory _ >>= _) = _
        rw [fresh]
        show (Closure.advance _ _ _ _ >>= _) = _
        rw [advanced]
        rfl
      · refine ⟨tagged, rfl, waiting, fun index other registered => ?_, Table.sorted_empty,
          fun transition member => absurd member (Array.not_mem_empty _),
          fun source range member => absurd member none,
          ⟨configuration.threads, memory, ⟨configuration, rfl, rfl⟩, runs, carries⟩,
          fun state found member => absurd member none⟩
        rw [Registry.get?_register] at registered
        split at registered
        · rw [← Option.some.inj registered]
          exact configurationNamed
        · cases registered

end Matcher

/-- The result of matching an input with a new matcher. -/
def Automaton.matchOnce (automaton : Automaton) (merge : Bool) (input : String) :
    Except Fault MatchResult := do
  let matcher ← Matcher.ofAutomaton automaton merge
  let (result, _) ← matcher.matchInput input
  return result

/-- A new matcher reports what the walkers find, unless it runs out of names. -/
theorem Automaton.matchOnce_spec {automaton : Automaton} (tagged : automaton.WellTagged)
    (entire : automaton.groups ≠ []) (merge : Bool) (input : String) :
    automaton.matchOnce merge input = .error .historiesExhausted ∨
      ∃ result, automaton.matchOnce merge input = .ok result ∧
        result.histories? = automaton.report input.toList := by
  obtain exhausted | ⟨matcher, success, consistent, same⟩ :=
    Matcher.ofAutomaton_spec tagged merge
  · left
    rw [matchOnce, exhausted]
    rfl
  · rw [← same] at entire
    have unfolded : automaton.matchOnce merge input =
        (matcher.matchInput input).map fun matched => matched.1 := by
      rw [matchOnce, success]
      show (matcher.matchInput input >>= _) = _
      cases matcher.matchInput input <;> rfl
    rw [unfolded]
    obtain exhausted | ⟨result, later, success', answers⟩ :=
      Matcher.matchInput_spec consistent entire input
    · left
      rw [exhausted]
      rfl
    · right
      refine ⟨result, by rw [success']; rfl, ?_⟩
      rw [answers.histories, same]

end TaggedRegex
