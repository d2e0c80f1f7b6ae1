import Mathlib
import TaggedRegex.Proofs.Matching.Report
import TaggedRegex.Proofs.Trail.Coverage

set_option autoImplicit false

/-!
What a matcher reports is what a path crosses, for every finished automaton: there is a match if and
only if some path reads the whole input, and then the spans of all groups are those of one such
path.
-/

namespace TaggedRegex

variable {automaton : Automaton} {input : List Char} {walker : Walker}

namespace Walker

/-- Whatever completes the input from where the walker stands completes it from the beginning, with
the trail of the walker in front. -/
def Continues (automaton : Automaton) (input : List Char) (walker : Walker) : Prop :=
  ∀ rest later, automaton.Completes rest input.length walker.state later →
    automaton.Completes (input ++ rest) 0 automaton.initial (walker.trail ++ later)

/-- The walker has read the whole input, and what follows may cross edges for its end. -/
def Finishes (automaton : Automaton) (input : List Char) (walker : Walker) : Prop :=
  ∀ later, automaton.Completes [] input.length walker.state later →
    automaton.Completes input 0 automaton.initial (walker.trail ++ later)

theorem Continues.follow (continues : walker.Continues automaton input) {edge : Edge}
    (member : edge ∈ automaton.onEpsilon walker.state) :
    (walker.follow input.length edge).Continues automaton input := by
  intro rest later completes
  have whole := continues rest _ (.free member completes)
  rw [List.append_cons] at whole
  exact whole

theorem Continues.read (continues : walker.Continues automaton input) {c : Char} {edge : Edge}
    (member : edge ∈ automaton.onChar walker.state c) :
    (walker.follow (input.length + 1) edge).Continues automaton (input ++ [c]) := by
  intro rest later completes
  rw [List.length_append, List.length_singleton] at completes
  have whole := continues (c :: rest) _ (.read member completes)
  rw [List.append_cons input, List.append_cons walker.trail] at whole
  exact whole

theorem Finishes.follow (finishes : walker.Finishes automaton input) {edge : Edge}
    (member : edge ∈ automaton.onEpsilon walker.state ++ automaton.onEnd walker.state) :
    (walker.follow input.length edge).Finishes automaton input := by
  intro later completes
  have longer : automaton.Completes [] input.length walker.state
      (⟨edge, input.length⟩ :: later) := by
    obtain epsilon | atEnd := List.mem_append.1 member
    · exact .free epsilon completes
    · exact .atEnd atEnd completes
  have whole := finishes _ longer
  rw [List.append_cons] at whole
  exact whole

theorem Continues.finishes (continues : walker.Continues automaton input) :
    walker.Finishes automaton input := by
  intro later completes
  have whole := continues [] later completes
  rw [List.append_nil] at whole
  exact whole

theorem continues_begun (automaton : Automaton) :
    ∀ walker ∈ begun automaton, walker.Continues automaton [] := by
  apply advance_keeps (Continues automaton [])
  · exact fun _ continues _ member => continues.follow member
  · intro start member arrival arrives
    rw [List.mem_singleton.1 arrives, List.mem_singleton.1 member]
    exact fun _ _ completes => completes

theorem continues_afterChars (rest : List Char) {walkers : List Walker}
    (early : ∀ walker ∈ walkers, walker.Continues automaton input) :
    ∀ walker ∈ afterChars automaton walkers input.length rest,
      walker.Continues automaton (input ++ rest) := by
  induction rest generalizing input walkers with
  | nil =>
    rw [List.append_nil]
    exact early
  | cons c rest ih =>
    have counted : (input ++ [c]).length = input.length + 1 := List.length_append
    have next : ∀ walker ∈ advance automaton (.char c) (input ++ [c]).length walkers,
        walker.Continues automaton (input ++ [c]) := by
      apply advance_keeps (Continues automaton (input ++ [c]))
      · exact fun _ continues _ member => continues.follow member
      · intro walker member arrival arrives
        obtain ⟨edge, edgeMember, rfl⟩ := List.mem_map.1 arrives
        rw [counted]
        exact (early walker member).read edgeMember
    have later := ih next
    rw [counted, ← List.append_cons] at later
    exact later

/-- If anything completes the rest of the input from where a walker arrives, some walker stands
where the completion goes on after its first epsilon edges. -/
theorem exists_departs (step : Step)
    (epsilon : Closure.freeEdges automaton step = automaton.onEpsilon) {consumed : Nat}
    {walkers : List Walker} (member : walker ∈ walkers) {arrival : Walker}
    (arrives : arrival ∈ walker.arrivals automaton step consumed) {rest : List Char}
    {trail : Trail} (completes : automaton.Completes rest consumed arrival.state trail) :
    ∃ found ∈ advance automaton step consumed walkers, ∃ later,
      automaton.Departs rest consumed found.state later := by
  obtain ⟨glide, state, later, -, glides, departs⟩ := completes.departure
  rw [← epsilon] at glides
  obtain ⟨found, foundMember, rfl⟩ := exists_mem_advance member arrives glides departs.isLive
  exact ⟨found, foundMember, later, departs⟩

theorem exists_departs_afterChars (rest : List Char) {consumed : Nat} {walkers : List Walker}
    (member : walker ∈ walkers) {trail : Trail}
    (departs : automaton.Departs rest consumed walker.state trail) :
    ∃ found ∈ afterChars automaton walkers consumed rest, ∃ later,
      automaton.Departs [] (consumed + rest.length) found.state later := by
  induction rest generalizing consumed walkers walker trail with
  | nil => exact ⟨walker, member, trail, departs⟩
  | cons c rest ih =>
    cases departs with
    | @read _ _ _ _ edge later edgeMember completes =>
      have arrives : walker.follow (consumed + 1) edge ∈
          walker.arrivals automaton (.char c) (consumed + 1) := List.mem_map_of_mem edgeMember
      obtain ⟨next, nextMember, onward, departs⟩ :=
        exists_departs (.char c) rfl member arrives completes
      have found := ih nextMember departs
      rw [Nat.add_assoc, Nat.add_comm 1] at found
      exact found

end Walker

namespace Automaton

/-- Whoever wins has followed a path through the whole input. -/
theorem completes_of_winner? {winner : Walker} (won : automaton.winner? input = some winner) :
    automaton.Completes input 0 automaton.initial winner.trail := by
  rw [winner?, Walker.winner?] at won
  have accepting : winner.state = automaton.accept := by simpa using List.find?_some won
  have continues := Walker.continues_afterChars input
    (Walker.continues_begun automaton)
  rw [List.nil_append] at continues
  have finishes : winner.Finishes automaton input := by
    apply Walker.advance_keeps (Walker.Finishes automaton input) ?_ ?_ winner
      (List.mem_of_find?_eq_some won)
    · intro walker finishes edge member
      rw [Closure.freeEdges, List.mem_mergeSort] at member
      exact finishes.follow member
    · intro walker member arrival arrives
      have here := (continues walker member).finishes
      obtain staying | crossing := List.mem_append.1 arrives
      · split at staying
        · rw [List.mem_singleton.1 staying]
          exact here
        · cases staying
      · obtain ⟨edge, edgeMember, rfl⟩ := List.mem_map.1 crossing
        exact here.follow (List.mem_append_right _ edgeMember)
  have ended : automaton.Completes [] input.length winner.state [] := by
    rw [accepting]
    exact .done input.length
  have whole := finishes [] ended
  rw [List.append_nil] at whole
  exact whole

/-- If some path reads the whole input, somebody wins. -/
theorem exists_winner? {path : Trail}
    (completes : automaton.Completes input 0 automaton.initial path) :
    ∃ winner, automaton.winner? input = some winner := by
  have start := List.mem_singleton_self (⟨automaton.initial, []⟩ : Walker)
  obtain ⟨first, firstMember, onward, departs⟩ := Walker.exists_departs .start rfl start
    (List.mem_singleton_self _) completes
  obtain ⟨walker, member, last, departs⟩ :=
    Walker.exists_departs_afterChars input firstMember departs
  rw [Nat.zero_add] at departs
  -- Behind the last character the walker accepts or goes on over an edge for the end.
  have accepted : ∃ arrival ∈ walker.arrivals automaton .finish input.length, ∃ glide,
      Glides automaton.anyEnd input.length arrival.state glide automaton.accept := by
    obtain ⟨state, trail⟩ := walker
    cases departs with
    | done =>
      refine ⟨⟨automaton.accept, trail⟩, List.mem_append_left _ ?_, [], .stay _⟩
      rw [if_pos rfl]
      exact List.mem_singleton_self _
    | @atEnd _ _ edge later edgeMember completes =>
      exact ⟨_, List.mem_append_right _ (List.mem_map_of_mem edgeMember), later,
        Completes.nil_iff.1 completes⟩
  obtain ⟨arrival, arrives, glide, glides⟩ := accepted
  have free : Glides (Closure.freeEdges automaton .finish) input.length arrival.state glide
      automaton.accept := by
    apply glides.mono
    intro state edge edgeMember
    rw [Closure.freeEdges, List.mem_mergeSort]
    exact edgeMember
  obtain ⟨found, foundMember, same⟩ :=
    Walker.exists_mem_advance member arrives free (isLive_accept automaton)
  rw [winner?, Walker.winner?, ← Option.isSome_iff_exists, List.find?_isSome]
  exact ⟨found, foundMember, decide_eq_true same⟩

/-- What is reported: a match if and only if a path reads the whole input, and then the spans on one
such path. -/
theorem report_path {result : MatchResult} (reported : result.histories? = automaton.report input) :
    (result.isMatch = true ↔
        ∃ path, automaton.Completes input 0 automaton.initial path) ∧
      ∀ captures, result = .matched captures → ∃ path,
        automaton.Completes input 0 automaton.initial path ∧
        captures.groups = automaton.groups.map path.spans := by
  rw [report] at reported
  cases won : automaton.winner? input with
  | none =>
    rw [won] at reported
    obtain rfl : result = .noMatch := MatchResult.histories?_injective reported
    constructor
    · constructor
      · intro isMatch
        cases isMatch
      · intro some
        obtain ⟨path, completes⟩ := some
        obtain ⟨winner, found⟩ := exists_winner? completes
        rw [won] at found
        cases found
    · intro captures same
      cases same
  | some winner =>
    rw [won] at reported
    have completes := completes_of_winner? won
    cases result with
    | noMatch => cases reported
    | matched captures =>
      refine ⟨⟨fun _ => ⟨_, completes⟩, fun _ => rfl⟩, fun others same => ?_⟩
      obtain rfl : captures = others := by simpa using same
      exact ⟨winner.trail, completes, Option.some.inj reported⟩

/-- A new matcher for a finished automaton that has group 0 matches an input if and only if a path
leads over all of it, and then one such path accounts for the spans of every group. -/
theorem matchOnce_path (builder : Builder) (automaton : Automaton)
    (built : builder.build = .ok automaton) (entire : ∃ group ∈ automaton.groups, group.number = 0)
    (merge : Bool) (input : String)
    (enough : automaton.matchOnce merge input ≠ .error .historiesExhausted) :
    ∃ result, automaton.matchOnce merge input = .ok result ∧
      (result.isMatch = true ↔
        ∃ path, automaton.Completes input.toList 0 automaton.initial path) ∧
      ∀ captures, result = .matched captures → ∃ path,
        automaton.Completes input.toList 0 automaton.initial path ∧
        captures.size = automaton.groups.length ∧
        ∀ group ∈ automaton.groups, captures.history group.number = .ok (path.spans group) := by
  obtain ⟨-, -, -, -, numbers, tagged⟩ := Builder.build_eq_ok built
  have nonempty : automaton.groups ≠ [] := by
    obtain ⟨group, member, -⟩ := entire
    exact List.ne_nil_of_mem member
  obtain exhausted | ⟨result, success, reported⟩ :=
    automaton.matchOnce_spec tagged nonempty merge input
  · exact absurd exhausted enough
  obtain ⟨isMatch, found⟩ := report_path reported
  refine ⟨result, success, isMatch, ?_⟩
  intro captures same
  obtain ⟨path, completes, groups⟩ := found captures same
  refine ⟨path, completes, ?_, fun group member => Captures.history_eq groups numbers member⟩
  rw [Captures.size, groups, List.length_map]

end Automaton

/-- An automaton with tags on edges of every kind, with a cycle of epsilon edges and edges for the
end of the input, and with edges out of the accepting state, which can be entered early. -/
def Builder.winding : Builder where
  states := ⟨3⟩
  rows :=
    [⟨⟨0⟩, .chars ⟨'c', 'k', by decide⟩, [⟨⟨1⟩, .normal, some ⟨0, .opening⟩, 0⟩]⟩,
      ⟨⟨0⟩, .chars ⟨'e', 't', by decide⟩, [⟨⟨2⟩, .low, some ⟨1, .opening⟩, 1⟩]⟩,
      ⟨⟨1⟩, .atEnd, [⟨⟨2⟩, .normal, some ⟨1, .closing⟩, 2⟩, ⟨⟨1⟩, .low, some ⟨1, .opening⟩, 3⟩]⟩,
      ⟨⟨1⟩, .epsilon, [⟨⟨2⟩, .low, some ⟨1, .opening⟩, 4⟩]⟩,
      ⟨⟨2⟩, .chars ⟨'a', 'g', by decide⟩, [⟨⟨1⟩, .normal, none, 5⟩]⟩,
      ⟨⟨2⟩, .epsilon, [⟨⟨1⟩, .normal, some ⟨0, .closing⟩, 6⟩]⟩]
  initial := some ⟨0⟩
  accept := some ⟨2⟩
  groups := [.entireMatch, ⟨1, 0⟩]
  connected := 7

theorem Automaton.matchOnce_path_winding :
    ∃ captures path, Automaton.matchOnce
        ⟨Builder.winding.rows, ⟨0⟩, ⟨2⟩, Builder.winding.groups⟩ true "fga" =
          .ok (.matched captures) ∧
      captures.groups = [[], [⟨1, 2⟩]] ∧
      Automaton.Completes ⟨Builder.winding.rows, ⟨0⟩, ⟨2⟩, Builder.winding.groups⟩
        "fga".toList 0 ⟨0⟩ path ∧
      ∀ group ∈ Builder.winding.groups, captures.history group.number = .ok (path.spans group) := by
  have run : (Automaton.matchOnce ⟨Builder.winding.rows, ⟨0⟩, ⟨2⟩, Builder.winding.groups⟩ true
      "fga").map MatchResult.histories? = .ok (some [[], [⟨1, 2⟩]]) := by cbv
  obtain ⟨result, success, -, found⟩ := matchOnce_path Builder.winding
    ⟨Builder.winding.rows, ⟨0⟩, ⟨2⟩, Builder.winding.groups⟩ (by cbv) ⟨.entireMatch, by decide, rfl⟩
    true "fga" (Fault.ne_error_of_map_eq_ok run _)
  rw [success] at run
  obtain ⟨captures, rfl, spans⟩ := MatchResult.exists_captures (Except.ok.inj run)
  obtain ⟨path, completes, -, histories⟩ := found captures rfl
  exact ⟨captures, path, success, spans, completes, histories⟩

end TaggedRegex
