import TaggedRegex.Proofs.Tour.Advance

set_option autoImplicit false

/-!
The instructions of a step track its paths. They are one list for all threads, in the order of the
visits; each visit copies a history that another thread may still need, and visits that lead nowhere
leave their instructions behind. Yet every visit finds its histories as its path has left them,
since names in use are only read.
-/

namespace TaggedRegex

/-- The boundaries that a path marks for a tag, newest first. -/
def Edge.marks (position : Int) (tag : Tag) (path : List Edge) : List Int :=
  (path.reverse.filter fun edge => edge.tag = some tag).map fun _ => position + tag.offset

theorem Edge.marks_concat (position : Int) (tag : Tag) (path : List Edge) (edge : Edge) :
    marks position tag (path ++ [edge]) =
      (if edge.tag = some tag then [position + tag.offset] else []) ++ marks position tag path := by
  unfold marks
  rw [List.reverse_append, List.reverse_singleton, List.filter_append, List.map_append]
  by_cases here : edge.tag = some tag <;> simp [here]

/-- Every thread has one history for every tag. Their names have been handed out, and they exist. -/
structure Configuration.Stocked (automaton : Automaton) (supply : Supply) (memory : Memory)
    (source : Configuration) : Prop where
  lengths : ∀ thread ∈ source.threads, thread.histories.length = automaton.tags.length
  issued : ∀ thread ∈ source.threads, ∀ id ∈ thread.histories, id.index < supply.issued
  initialised : ∀ thread ∈ source.threads, ∀ id ∈ thread.histories,
    ∃ history, memory.get? id = some history

namespace Visit

variable {automaton : Automaton} {name : StateId → HistoryId} {supply : Supply} {step : Step}
  {source : Configuration} {position : Int} {origin before after : Memory}

theorem marks_path (position : Int) (tag : Tag) (visit : Visit) :
    Edge.marks position tag visit.path =
      (if visit.tag? = some tag then [position + tag.offset] else []) ++
        Edge.marks position tag visit.before.path := by
  rcases visit.eq_nil_or_follow with start | ⟨edge, last⟩
  · rw [start]
    rfl
  · rw [last, tag?_follow, before_follow]
    exact Edge.marks_concat position tag _ edge

/-- The names of the visit's histories have been handed out, and every history holds what the path
has marked, in front of what the thread's history held in `origin`. -/
structure Settled (automaton : Automaton) (name : StateId → HistoryId) (position : Int)
    (origin : Memory) (limit : Nat) (memory : Memory) (visit : Visit) : Prop where
  issued : ∀ id ∈ visit.histories automaton name, id.index < limit
  holds : ∀ (slot : Nat) (tag : Tag), automaton.tags[slot]? = some tag →
    ∃ old new values, visit.origin.histories[slot]? = some old ∧
      (visit.histories automaton name)[slot]? = some new ∧ origin.Holds old values ∧
      memory.Holds new (Edge.marks position tag visit.path ++ values)

/-- What is done later does not matter, as long as it spares the names in use. -/
theorem Settled.mono {limit later : Nat} {visit : Visit}
    (settled : visit.Settled automaton name position origin limit before)
    (agrees : before.AgreesBelow limit after) (le : limit ≤ later) :
    visit.Settled automaton name position origin later after := by
  refine ⟨fun id member => Nat.lt_of_lt_of_le (settled.issued id member) le, ?_⟩
  intro slot tag tagAt
  obtain ⟨old, new, values, oldAt, newAt, held, holds⟩ := settled.holds slot tag tagAt
  have spared := agrees new (settled.issued new (List.mem_of_getElem? newAt))
  exact ⟨old, new, values, oldAt, newAt, held, holds.of_get?_eq spared⟩

/-- A thread that has not moved finds its own histories. -/
theorem settled_nil {thread : Thread} (stocked : source.Stocked automaton supply origin)
    (member : thread ∈ source.threads) :
    Settled automaton name position origin supply.issued origin ⟨thread, []⟩ := by
  refine ⟨stocked.issued thread member, ?_⟩
  intro slot tag tagAt
  have inside : slot < thread.histories.length := by
    rw [stocked.lengths thread member]
    exact (List.getElem?_eq_some_iff.1 tagAt).1
  have oldAt := List.getElem?_eq_getElem inside
  obtain ⟨history, found⟩ := stocked.initialised thread member _ (List.mem_of_getElem? oldAt)
  have held : origin.Holds thread.histories[slot] history.committed := by
    rw [Memory.Holds, found]
    rfl
  exact ⟨_, _, _, oldAt, oldAt, held, held⟩

/-- One visit. It takes the next name if it needs one, and nothing below that name changes. -/
theorem Settled.enter {limit : Nat} {visit : Visit} (tagged : automaton.WellTagged)
    (fits : visit.Fits automaton)
    (settled : visit.before.Settled automaton name position origin limit before)
    (named : visit.crosses = true → name visit.state = ⟨limit⟩) :
    ∃ after, before.performAll position (visit.instructions automaton name) = .ok after ∧
      before.AgreesBelow limit after ∧
      visit.Settled automaton name position origin (limit + [visit].countP crosses) after := by
  cases carries : visit.tag? with
  | none =>
    have silent : visit.crosses = false := by rw [crosses, carries]; rfl
    refine ⟨before, by rw [instructions, carries]; rfl, .refl _ _, ?_, ?_⟩
    · rw [histories_of_not_crosses silent]
      exact fun id member => Nat.lt_of_lt_of_le (settled.issued id member) (Nat.le_add_right _ _)
    · intro slot tag tagAt
      rw [histories_of_not_crosses silent, marks_path, carries, if_neg (by simp), List.nil_append]
      exact settled.holds slot tag tagAt
  | some tag =>
    have crossing : visit.crosses = true := by rw [crosses, carries]; rfl
    obtain ⟨slot, copied, -, only, copiedAt, histories, written⟩ :=
      fits.exists_slot tagged name carries
    have fresh := named crossing
    obtain ⟨old, new, values, oldAt, newAt, held, holds⟩ :=
      settled.holds slot tag ((only slot).2 rfl)
    obtain rfl := Option.some.inj (copiedAt.symm.trans newAt)
    obtain ⟨after, runs, marked, frame⟩ := Memory.performAll_cross holds position tag ⟨limit⟩
    have agrees : before.AgreesBelow limit after := by
      intro id below
      apply frame
      rintro rfl
      exact Nat.lt_irrefl _ below
    rw [List.countP_cons_of_pos crossing, List.countP_nil]
    refine ⟨after, by rw [written, fresh]; exact runs, agrees, ?_, ?_⟩
    · intro id member
      rw [histories] at member
      rcases List.mem_or_eq_of_mem_set member with early | rfl
      · exact Nat.lt_succ_of_lt (settled.issued id early)
      · rw [fresh]
        exact Nat.lt_succ_self limit
    · intro other otherTag otherAt
      rw [histories, marks_path, carries, List.getElem?_set]
      by_cases here : slot = other
      · subst here
        obtain rfl := Option.some.inj (((only slot).2 rfl).symm.trans otherAt)
        have inside := (List.getElem?_eq_some_iff.1 copiedAt).1
        rw [if_pos rfl, if_pos rfl, if_pos inside, fresh]
        exact ⟨old, ⟨limit⟩, values, oldAt, rfl, held, marked⟩
      · have different : ¬ some tag = some otherTag := by
          intro same
          rw [← same, only] at otherAt
          exact here otherAt.symm
        rw [if_neg here, if_neg different, List.nil_append]
        obtain ⟨old', new', values', oldAt', newAt', held', holds'⟩ :=
          settled.holds other otherTag otherAt
        have spared := agrees new' (settled.issued new' (List.mem_of_getElem? newAt'))
        exact ⟨old', new', values', oldAt', newAt', held', holds'.of_get?_eq spared⟩

/-- All visits. Whatever is visited later, the histories of a visit stay as its path left them. -/
theorem performAll_visits {visits : List Visit} (tagged : automaton.WellTagged)
    (grown :
      (terrain (Closure.freeEdges automaton step)).Grown (Begins automaton step source) visits)
    (stocked : source.Stocked automaton supply origin) (names : Names name supply visits) :
    ∃ after, origin.performAll position (visits.flatMap (instructions automaton name)) = .ok after ∧
      origin.AgreesBelow supply.issued after ∧
      ∀ visit ∈ visits, visit.Settled automaton name position origin
        (supply.issued + visits.countP crosses) after := by
  induction grown with
  | nil => exact ⟨origin, rfl, .refl _ _, fun _ member => absurd member List.not_mem_nil⟩
  | @enter entered visit grown comes ih =>
    obtain ⟨middle, runs, agrees, settled⟩ := ih names.of_append
    have arrives := arrives_of_grown (grown.enter comes) visit (by simp)
    -- The visit begins where a thread stands, or where an earlier visit has led; both are settled.
    have last : visit.before.Settled automaton name position origin
        (supply.issued + entered.countP crosses) middle := by
      rcases comes with begins | ⟨parent, member, priority, onward⟩
      · have start : visit.before = ⟨visit.origin, []⟩ := by
          rw [before, ← begins.short]
          rfl
        rw [start]
        exact (settled_nil stocked arrives.origin).mono agrees (Nat.le_add_right _ _)
      · obtain ⟨edge, -, rfl⟩ := List.mem_map.1 onward
        rw [before_follow]
        exact settled parent member
    obtain ⟨after, runsLast, agreesLast, settledLast⟩ := last.enter tagged
      (arrives.fits stocked.lengths) (names entered visit [] rfl)
    rw [List.flatMap_append, List.flatMap_singleton, List.countP_append, ← Nat.add_assoc]
    refine ⟨after, (Memory.performAll_append_of_ok runs _).trans runsLast,
      agrees.trans agreesLast (Nat.le_add_right _ _), ?_⟩
    intro other member
    rcases List.mem_append.1 member with early | isLast
    · exact (settled other early).mono agreesLast (Nat.le_add_right _ _)
    · obtain rfl := List.mem_singleton.1 isLast
      exact settledLast

end Visit

/-- Wherever in a string a step runs its instructions, no value that they set is beyond the end of
the string. A length fits into a signed machine word, so the values do. -/
theorem Closure.set_le_length {automaton : Automaton} (tagged : automaton.WellTagged)
    {source target : Configuration}
    (lengths : ∀ thread ∈ source.threads, thread.histories.length = automaton.tags.length)
    {step : Step} {supply later : Supply} {instructions : List Instruction}
    (success : advance automaton source step supply = .ok (some (target, instructions), later))
    {id : HistoryId} {offset : Int} (member : .set id offset ∈ instructions)
    {position : Int} {length : Nat} (ge : -1 ≤ position) (lt : position < length) :
    -1 ≤ position + offset ∧ position + offset ≤ length := by
  obtain ⟨visit, name, emitted⟩ : ∃ (visit : Visit) (name : StateId → HistoryId),
      .set id offset ∈ visit.instructions automaton name := by
    rcases advance_eq_visits tagged lengths step supply with exhausted | visited
    · rw [success] at exhausted
      cases exhausted
    · obtain ⟨found, -⟩ := Prod.mk.inj (Except.ok.inj (success.symm.trans visited))
      split at found
      · cases found
      · obtain ⟨-, rfl⟩ := Prod.mk.inj (Option.some.inj found)
        obtain ⟨visit, -, emitted⟩ := List.mem_flatMap.1 member
        exact ⟨visit, _, emitted⟩
  obtain ⟨tag, rfl⟩ := Visit.offset_of_mem_instructions emitted
  have bounds := tag.offset_bounds
  omega

/-- A step that does not run out of names tracks its paths. Its instructions run, every history in
use before is as it was, and every thread that is found has come over a path of the step from one of
the threads: each of its histories holds what that path has marked for the tag, newest first, in
front of what the history of that thread held. The position is the index of the last character read
in a string, or -1, so that with the offset of a tag it stays within a signed machine word. -/
theorem Closure.advance_tracks_paths (builder : Builder) (automaton : Automaton)
    (built : builder.build = .ok automaton) (source : Configuration) (step : Step)
    (supply : Supply) (memory : Memory) (stocked : source.Stocked automaton supply memory)
    (enough : advance automaton source step supply ≠ .error .historiesExhausted) (position : Int) :
    ∃ outcome later, advance automaton source step supply = .ok (outcome, later) ∧
      ∀ target instructions, outcome = some (target, instructions) →
        ∃ after, memory.performAll position instructions = .ok after ∧
          (∀ id : HistoryId, id.index < supply.issued → after.get? id = memory.get? id) ∧
          ∀ thread ∈ target.threads, ∃ origin ∈ source.threads, ∃ path,
            automaton.Takes step origin.state path thread.state ∧
            thread.histories.length = automaton.tags.length ∧
            ∀ (slot : Nat) (tag : Tag), automaton.tags[slot]? = some tag →
              ∃ old new values, origin.histories[slot]? = some old ∧
                thread.histories[slot]? = some new ∧ memory.committed old = .ok values ∧
                after.committed new = .ok (Edge.marks position tag path ++ values) := by
  obtain ⟨-, -, -, -, -, tagged⟩ := Builder.build_eq_ok built
  have outcome := advance_eq_visits tagged stocked.lengths step supply
  have grown := Visit.grown_visits automaton step source
  have names := Visit.names_naming supply (Visit.nodup_visits automaton step source)
  generalize source.visits automaton step = visits at outcome grown names
  rcases outcome with exhausted | success
  · exact absurd exhausted enough
  · refine ⟨_, _, success, ?_⟩
    intro target instructions found
    obtain ⟨after, runs, agrees, settled⟩ := Visit.performAll_visits tagged grown stocked names
    split at found
    · cases found
    · obtain ⟨rfl, rfl⟩ := Prod.mk.inj (Option.some.inj found)
      refine ⟨after, runs, agrees, ?_⟩
      intro thread member
      obtain ⟨visit, live, rfl⟩ := List.mem_map.1 member
      have visited := List.mem_of_mem_filter live
      have arrives := Visit.arrives_of_grown grown visit visited
      refine ⟨visit.origin, arrives.origin, visit.path, arrives.takes, ?_, ?_⟩
      · exact (Visit.length_histories visit).trans (stocked.lengths visit.origin arrives.origin)
      · intro slot tag tagAt
        obtain ⟨old, new, values, oldAt, newAt, held, holds⟩ :=
          (settled visit visited).holds slot tag tagAt
        exact ⟨old, new, values, oldAt, newAt, Memory.committed_of_holds held,
          Memory.committed_of_holds holds⟩

/-- A path on which one tag is crossed twice. -/
def Builder.repeating : Builder where
  states := ⟨3⟩
  rows :=
    [⟨⟨0⟩, .chars ⟨'b', 'd', by decide⟩, [⟨⟨1⟩, .normal, some ⟨1, .opening⟩, 0⟩]⟩,
      ⟨⟨1⟩, .epsilon, [⟨⟨2⟩, .normal, some ⟨1, .opening⟩, 1⟩, ⟨⟨0⟩, .low, none, 2⟩]⟩]
  initial := some ⟨0⟩
  accept := some ⟨2⟩
  groups := [.entireMatch, ⟨1, 0⟩]
  connected := 3

def Automaton.repeating : Automaton :=
  ⟨Builder.repeating.rows, ⟨0⟩, ⟨2⟩, Builder.repeating.groups⟩

/-- The thread that is found first has come over the tag twice, the other one once. -/
theorem Closure.advance_tracks_paths_repeating :
    ∃ instructions path after,
      advance .repeating ⟨[⟨⟨0⟩, [⟨0⟩, ⟨1⟩, ⟨1⟩, ⟨1⟩]⟩]⟩ (.char 'c') ⟨2⟩ =
        .ok (some (⟨[⟨⟨2⟩, [⟨0⟩, ⟨1⟩, ⟨3⟩, ⟨1⟩]⟩, ⟨⟨0⟩, [⟨0⟩, ⟨1⟩, ⟨2⟩, ⟨1⟩]⟩]⟩, instructions),
          ⟨4⟩) ∧
      instructions = [.copy ⟨2⟩ ⟨1⟩, .set ⟨2⟩ 1, .commitStart ⟨2⟩,
        .copy ⟨3⟩ ⟨2⟩, .set ⟨3⟩ 1, .commitStart ⟨3⟩] ∧
      (Memory.ofBlank [⟨0⟩, ⟨1⟩]).performAll 4 instructions = .ok after ∧
      after.get? ⟨1⟩ = some .blank ∧ after.committed ⟨2⟩ = .ok [5] ∧
      Automaton.repeating.Takes (.char 'c') ⟨0⟩ path ⟨2⟩ ∧
      Edge.marks 4 ⟨1, .opening⟩ path = [5, 5] ∧ after.committed ⟨3⟩ = .ok [5, 5] := by
  have stocked : Configuration.Stocked .repeating ⟨2⟩ (Memory.ofBlank [⟨0⟩, ⟨1⟩])
      ⟨[⟨⟨0⟩, [⟨0⟩, ⟨1⟩, ⟨1⟩, ⟨1⟩]⟩]⟩ := by
    refine ⟨by decide, by decide, ?_⟩
    intro thread member id inside
    obtain rfl := List.mem_singleton.1 member
    exact ⟨.blank, by rw [Memory.get?_ofBlank, if_pos]; revert id; decide⟩
  have found : advance .repeating ⟨[⟨⟨0⟩, [⟨0⟩, ⟨1⟩, ⟨1⟩, ⟨1⟩]⟩]⟩ (.char 'c') ⟨2⟩ =
      .ok (some (⟨[⟨⟨2⟩, [⟨0⟩, ⟨1⟩, ⟨3⟩, ⟨1⟩]⟩, ⟨⟨0⟩, [⟨0⟩, ⟨1⟩, ⟨2⟩, ⟨1⟩]⟩]⟩,
        [.copy ⟨2⟩ ⟨1⟩, .set ⟨2⟩ 1, .commitStart ⟨2⟩,
          .copy ⟨3⟩ ⟨2⟩, .set ⟨3⟩ 1, .commitStart ⟨3⟩]), ⟨4⟩) := by cbv
  obtain ⟨outcome, later, success, tracks⟩ :=
    advance_tracks_paths Builder.repeating _ (by cbv) _ (.char 'c') _ _ stocked
      (Fault.ne_error_of_isOk (by rw [found]; rfl) _) 4
  obtain ⟨rfl, rfl⟩ := Prod.mk.inj (Except.ok.inj (found.symm.trans success))
  obtain ⟨after, runs, kept, comes⟩ := tracks _ _ rfl
  obtain ⟨origin, only, path, takes, -, slots⟩ := comes _ (List.mem_cons_self ..)
  obtain rfl := List.mem_singleton.1 only
  obtain ⟨old, new, values, oldAt, newAt, before, behind⟩ := slots 2 ⟨1, .opening⟩ rfl
  obtain rfl := Option.some.inj oldAt
  obtain rfl := Option.some.inj newAt
  obtain rfl : values = [] := (Except.ok.inj before).symm
  have once : after.committed ⟨2⟩ = .ok [5] := by
    rw [← Except.ok.inj runs]
    rfl
  have twice : after.committed ⟨3⟩ = .ok [5, 5] := by
    rw [← Except.ok.inj runs]
    rfl
  rw [List.append_nil, twice] at behind
  exact ⟨_, path, after, found, rfl, runs, (kept ⟨1⟩ (by decide)).trans rfl, once, takes,
    (Except.ok.inj behind).symm, twice⟩

end TaggedRegex
