import TaggedRegex.Proofs.Backtracking.Attempt
import TaggedRegex.Proofs.Matching.LeastRun

set_option autoImplicit false

/-!
Agreement with backtracking. Where every loop reads something there is a first way among all those
that lead through the automaton. The backtracking matcher finds it, and it is the least run.
-/

namespace TaggedRegex

variable {automaton : Automaton} {connections : List Connection}

namespace Progress

theorem tracks_start (rest : List Char) (consumed number : Nat) :
    (start rest consumed).Tracks number [] :=
  ⟨fun _ => rfl, fun _ _ => rfl⟩

end Progress

namespace Automaton

/-- At the accepting state it is right to succeed if and only if everything has been read. -/
theorem Draws.follows_done (draws : automaton.Draws connections)
    (stops : armsOf connections automaton.accept = []) (number : Nat) (nullable : Bool)
    (progress : Progress) (before : Trail) :
    automaton.Follows automaton.accept number nullable progress before Progress.done := by
  intro next passage _ tracks
  by_cases ended : next.rest = []
  · rw [Progress.done, if_pos ended]
    refine ⟨[], ?_, ?_, ?_⟩
    · rw [ended]
      exact .done next.consumed
    · intro other completes
      exact Or.inl (draws.completes_accept stops completes).2.symm
    · intro group
      rw [List.append_nil]
      exact tracks.spans group
  · rw [Progress.done, if_neg ended]
    intro trail completes
    exact ended (draws.completes_accept stops completes).1

/-- A right answer about the initial state is what is reported. -/
theorem Lays.histories_eq {regex : Regex} (lays : automaton.Lays connections regex) {count : Nat}
    (numbers : automaton.groups.map Group.number = List.range count) {input : List Char}
    {result : MatchResult} (reported : result.histories? = automaton.report input)
    {found : Option Progress}
    (decides : automaton.Decides automaton.initial (.start input 0) [] found) :
    result.histories? = found.map fun final => (List.range count).map final.spans := by
  cases found with
  | none =>
    rcases lays.orderly.report_cases reported with
      ⟨rfl, -⟩ | ⟨captures, run, -, least, -⟩
    · rfl
    · exact absurd least.1.completes (decides run)
  | some final =>
    rcases decides with ⟨trail, completes, least, spans⟩
    have isRun := completes.isRun_of_least lays.orderly least
    rcases lays.orderly.report_cases reported with
      ⟨-, noRun⟩ | ⟨captures, run, rfl, leastRun, groups⟩
    · exact absurd ⟨trail, isRun⟩ noRun
    · -- The least completion is a run, and so it is the least run.
      have same : trail = run := by
        by_contra different
        have after := leastRun.2 trail isRun different
        rcases least run leastRun.1.completes with equal | precedes
        · exact different equal
        · exact precedes.asymm after
      have listed : automaton.groups.map run.spans = (List.range count).map final.spans := by
        rw [← numbers, List.map_map, ← same]
        apply List.map_congr_left
        intro group _
        exact (spans group.number).symm
      show some captures.groups = some _
      rw [groups, listed]

end Automaton

namespace Regex

/-- A filler in front of a character passes it or leaves. -/
theorem iterate_any_cons (greed : Greed) (goOn : Progress → Option Progress) (number : Nat)
    (c : Char) (rest : List Char) (consumed : Nat) (spans : Nat → List Span) :
    greed.iterate (Regex.any.attempt number) goOn ⟨c :: rest, consumed, spans⟩ =
      greed.choose (greed.iterate (Regex.any.attempt number) goOn ⟨rest, consumed + 1, spans⟩)
        (goOn ⟨c :: rest, consumed, spans⟩) := by
  have passes : ∀ next, Regex.any.attempt number next ⟨c :: rest, consumed, spans⟩ =
      next ⟨rest, consumed + 1, spans⟩ := by
    intro next
    rw [attempt]
    rfl
  have shorter : rest.length < (c :: rest).length := Nat.lt_succ_self rest.length
  rw [Greed.iterate, passes]
  show greed.choose (if rest.length < (c :: rest).length then _ else _) _ = _
  rw [if_pos shorter]

/-- A filler at the end of the input leaves. -/
theorem iterate_any_nil (greed : Greed) (goOn : Progress → Option Progress) (number consumed : Nat)
    (spans : Nat → List Span) :
    greed.iterate (Regex.any.attempt number) goOn ⟨[], consumed, spans⟩ =
      goOn ⟨[], consumed, spans⟩ := by
  have fails : ∀ next, Regex.any.attempt number next ⟨[], consumed, spans⟩ = none := by
    intro next
    rw [attempt]
    rfl
  rw [Greed.iterate, fails]
  cases greed with
  | greedy => rfl
  | lazy =>
    show (goOn ⟨[], consumed, spans⟩ <|> none) = goOn ⟨[], consumed, spans⟩
    cases goOn ⟨[], consumed, spans⟩ <;> rfl

/-- The greedy filler reads all that is left. -/
theorem attempt_rear (number : Nat) (rest : List Char) (consumed : Nat) (spans : Nat → List Span) :
    (Regex.rep .star .greedy .any).attempt number Progress.done ⟨rest, consumed, spans⟩ =
      some ⟨[], consumed + rest.length, spans⟩ := by
  rw [attempt]
  induction rest generalizing consumed with
  | nil =>
    rw [iterate_any_nil]
    rfl
  | cons c rest ih =>
    rw [iterate_any_cons, ih, List.length_cons, Nat.add_right_comm]
    rfl

/-- The lazy filler tries one beginning after the other. -/
theorem searchFrom_eq_attempt (regex : Regex) (rest : List Char) (consumed : Nat) :
    regex.searchFrom rest consumed = (Regex.rep .star .lazy .any).attempt 0
      ((Regex.group regex).attempt 0 some) (.start rest consumed) := by
  rw [attempt]
  induction rest generalizing consumed with
  | nil => rw [searchFrom, Progress.start, iterate_any_nil]
  | cons c rest ih =>
    rw [searchFrom, ih, Progress.start, Progress.start, iterate_any_cons]
    rfl

/-- The expressions in which all loops read something are still such within group 0 and between the
fillers of a search. -/
theorem LoopsAdvance.group {regex : Regex} (advance : regex.LoopsAdvance) :
    (Regex.group regex).LoopsAdvance := by
  rw [LoopsAdvance]
  exact advance

theorem loopsAdvance_filler (greed : Greed) : (Regex.rep .star greed .any).LoopsAdvance := by
  rw [LoopsAdvance, LoopsAdvance, ← nullable_iff_spells]
  exact ⟨fun _ => by decide, trivial⟩

end Regex

namespace Automaton

/-- The search that tries one beginning after the other is right about the initial state. -/
theorem Lays.decides_search {regex : Regex}
    (lays : automaton.Lays connections (regex.anchored .search)) (advance : regex.LoopsAdvance)
    (input : List Char) :
    automaton.Decides automaton.initial (.start input 0) [] (regex.searchFrom input 0) := by
  have laysCat := lays.lays
  rw [Regex.anchored, Plan.Lays, Plan.LaysItems] at laysCat
  rcases laysCat with ⟨first, laysFront, laysEntire⟩
  rw [Plan.LaysItems] at laysEntire
  rcases laysEntire with ⟨last, laysGroup, laysRear⟩
  rw [Plan.LaysItems] at laysRear
  rw [Regex.searchFrom_eq_attempt]
  apply Regex.attempt_spec lays.draws _ (Regex.loopsAdvance_filler .lazy) laysFront
    (Progress.tracks_start input 0 0)
  intro next passage _ tracks
  apply Regex.attempt_spec lays.draws _ advance.group laysGroup tracks
  intro passed further _ tracks'
  have rear := Regex.attempt_spec lays.draws _ (Regex.loopsAdvance_filler .greedy) laysRear
    (tracks'.mono (Nat.zero_le _)) (lays.draws.follows_done lays.stops _ _ passed _)
  obtain ⟨rest, consumed, spans⟩ := passed
  rw [Regex.attempt_rear] at rear
  exact rear

/-- What the backtracking matcher finds is right about the initial state. -/
theorem Lays.histories_backtrack {regex : Regex} {anchor : Anchor}
    (lays : automaton.Lays connections (regex.anchored anchor)) (advance : regex.LoopsAdvance)
    (numbers : automaton.groups.map Group.number = List.range (regex.groupCount + 1))
    {input : List Char} {result : MatchResult}
    (reported : result.histories? = automaton.report input) :
    result.histories? = (regex.backtrack anchor input).histories? := by
  cases anchor with
  | full =>
    have decides := Regex.attempt_spec lays.draws _ advance.group lays.lays
      (Progress.tracks_start input 0 0) (lays.draws.follows_done lays.stops 0 _ _ [])
    rw [lays.histories_eq numbers reported decides, Regex.backtrack]
    cases (Regex.group regex).attempt 0 Progress.done (.start input 0) <;> rfl
  | search =>
    rw [lays.histories_eq numbers reported (lays.decides_search advance input), Regex.backtrack]
    cases regex.searchFrom input 0 <;> rfl

end Automaton

namespace Regex

/-- If no body of a star or plus may match without reading anything, a new matcher reports the spans
of every group that a backtracking matcher finds first. -/
theorem matchOnce_eq_backtrack (regex : Regex) (config : Config) (input : String)
    (advance : regex.LoopsAdvance) (enough : regex.NamesSuffice config input) :
    regex.matchOnce config input = .ok (regex.backtrack config.anchor input.toList) := by
  rcases matchOnce_spec enough with
    ⟨automaton, connections, result, built, lays, numbers, success, reported⟩
  rw [success]
  congr 1
  exact MatchResult.histories?_injective (lays.histories_backtrack advance numbers reported)

/-- A group within a lazy loop, and an alternative that is tried before a longer one. -/
def lazyLoop : Regex :=
  .cat [.rep .star .lazy (.group (.alt [.lit 'a', .cat [.lit 'a', .lit 'b']])), .lit 'b']

theorem matchOnce_eq_backtrack_lazy_loop :
    lazyLoop.matchOnce ⟨.search, true⟩ "aab" = .ok (lazyLoop.backtrack .search "aab".toList) ∧
      (lazyLoop.backtrack .search "aab".toList).histories? =
        some [[⟨0, 2⟩], [⟨0, 0⟩, ⟨1, 1⟩]] := by
  have run : (lazyLoop.matchOnce ⟨.search, true⟩ "aab").map MatchResult.histories? =
      .ok (some [[⟨0, 2⟩], [⟨0, 0⟩, ⟨1, 1⟩]]) := by cbv
  have advance : lazyLoop.LoopsAdvance := by
    simp [lazyLoop, LoopsAdvance, AllLoopsAdvance, ← nullable_iff_spells, nullable, anyNullable,
      allNullable]
  have agrees := matchOnce_eq_backtrack lazyLoop ⟨.search, true⟩ "aab" advance
    (namesSuffice_of_map_eq_ok run)
  rw [agrees] at run
  exact ⟨agrees, Except.ok.inj run⟩

end Regex

end TaggedRegex
