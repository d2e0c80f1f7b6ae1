import TaggedRegex.Proofs.Backtracking.Decision
import TaggedRegex.Proofs.CharRange.Alphabet

set_option autoImplicit false

/-!
Attempts. What an expression answers is right about its first state if what is done behind it is
right about its last one. Loops are taken again only after something has been read, so they are
settled by induction on what lies ahead.
-/

namespace TaggedRegex

/-- The spans that were recorded are those of the trail, and every group from `number` on is
closed. -/
structure Progress.Tracks (progress : Progress) (number : Nat) (trail : Trail) : Prop where
  spans : ∀ group, progress.spans group = trail.spansOf group
  closed : ∀ group, number ≤ group → trail.Closed group

/-- From the one to the other an expression was passed that crosses no tags below `number` and that
reads something, unless it is nullable. -/
structure Progress.Moves (number : Nat) (nullable : Bool) (progress next : Progress)
    (passage : Trail) : Prop where
  le : next.rest.length ≤ progress.rest.length
  lt : nullable = false → next.rest.length < progress.rest.length
  quiet : ∀ tag : Tag, tag.group < number → passage.crossings tag = []

namespace Progress

variable {progress next : Progress} {number : Nat} {before passage : Trail}

theorem Tracks.mono {larger : Nat} (tracks : progress.Tracks number before)
    (le : number ≤ larger) : progress.Tracks larger before :=
  ⟨tracks.spans, fun group above => tracks.closed group (Nat.le_trans le above)⟩

/-- An edge without a tag changes nothing. -/
theorem Tracks.untagged (tracks : progress.Tracks number before)
    (same : next.spans = progress.spans) {edge : Edge} (untagged : edge.tag = none)
    (consumed : Nat) : next.Tracks number (before ++ [⟨edge, consumed⟩]) := by
  have quiet := Trail.crossings_untagged untagged consumed
  constructor
  · intro group
    rw [Trail.spansOf_append_of_quiet (fun _ => quiet _), same]
    exact tracks.spans group
  · intro group above
    unfold Trail.Closed
    rw [Trail.crossings_append, Trail.crossings_append, quiet, quiet, List.append_nil,
      List.append_nil]
    exact tracks.closed group above

/-- A group whose beginning has been crossed has no more spans than before. -/
theorem Tracks.opened (tracks : progress.Tracks number before) {edge : Edge}
    (opens : edge.tag = some ⟨number, .opening⟩) (consumed : Nat) :
    progress.Tracks (number + 1) (before ++ [⟨edge, consumed⟩]) := by
  have crossings := Trail.crossings_tagged opens consumed
  constructor
  · intro group
    by_cases own : group = number
    · rw [own, (tracks.closed number (Nat.le_refl _)).spansOf_append, tracks.spans]
      have none : Trail.spansOf [⟨edge, consumed⟩] number = [] := by
        rw [Trail.spansOf_of_crossings (crossings _) (crossings _)]
        simp
      rw [none, List.append_nil]
    · rw [Trail.spansOf_append_of_quiet ?_, tracks.spans]
      intro boundary
      rw [crossings, if_neg]
      intro same
      exact own (congrArg Tag.group same)
  · intro group above
    unfold Trail.Closed
    have other : ∀ boundary, (⟨group, boundary⟩ : Tag) ≠ ⟨number, .opening⟩ := by
      intro boundary same
      have equal : group = number := congrArg Tag.group same
      omega
    rw [Trail.crossings_append, Trail.crossings_append, crossings, crossings, if_neg (other _),
      if_neg (other _), List.append_nil, List.append_nil]
    exact tracks.closed group (by omega)

/-- Between the tags of a group nothing of the group was crossed, so its end completes one more
span. -/
theorem Tracks.closing (tracks : progress.Tracks number before) {opening closing : Edge}
    (opens : opening.tag = some ⟨number, .opening⟩) (closes : closing.tag = some ⟨number, .closing⟩)
    (quiet : ∀ tag : Tag, tag.group < number + 1 → passage.crossings tag = []) {first : Nat}
    (within : next.Tracks (number + 1) (before ++ ([⟨opening, first⟩] ++ passage))) :
    (next.record number first).Tracks number
      (before ++ ([⟨opening, first⟩] ++ passage) ++ [⟨closing, next.consumed⟩]) := by
  have closed := tracks.closed number (Nat.le_refl _)
  have opened := Trail.crossings_tagged opens first
  have ended := Trail.crossings_tagged closes next.consumed
  have silent : ∀ boundary, passage.crossings ⟨number, boundary⟩ = [] :=
    fun boundary => quiet ⟨number, boundary⟩ (Nat.lt_succ_self number)
  have begins : Trail.crossings ([⟨opening, first⟩] ++ passage) ⟨number, .opening⟩ = [first] := by
    rw [Trail.crossings_append, opened, silent, if_pos rfl]
    rfl
  have continues : Trail.crossings ([⟨opening, first⟩] ++ passage) ⟨number, .closing⟩ = [] := by
    rw [Trail.crossings_append, opened, silent, if_neg (by simp)]
    rfl
  have begun : Trail.crossings ([⟨opening, first⟩] ++ passage ++ [⟨closing, next.consumed⟩])
      ⟨number, .opening⟩ = [first] := by
    rw [Trail.crossings_append, begins, ended, if_neg (by simp)]
    rfl
  have finished : Trail.crossings ([⟨opening, first⟩] ++ passage ++ [⟨closing, next.consumed⟩])
      ⟨number, .closing⟩ = [next.consumed] := by
    rw [Trail.crossings_append, continues, ended, if_pos rfl]
    rfl
  constructor
  · intro group
    by_cases own : group = number
    · have unchanged : Trail.spansOf ([⟨opening, first⟩] ++ passage) number = [] := by
        rw [Trail.spansOf_of_crossings begins continues]
        rfl
      have added : Trail.spansOf ([⟨opening, first⟩] ++ passage ++ [⟨closing, next.consumed⟩])
          number = [⟨first, (next.consumed : Int) - 1⟩] := by
        rw [Trail.spansOf_of_crossings begun finished]
        rfl
      have recorded : (next.record number first).spans number =
          next.spans number ++ [⟨first, (next.consumed : Int) - 1⟩] := if_pos rfl
      rw [own, recorded, within.spans, List.append_assoc before, closed.spansOf_append, unchanged,
        closed.spansOf_append, added, List.append_nil]
    · have kept : (next.record number first).spans group = next.spans group := if_neg own
      have elsewhere : ∀ boundary,
          Trail.crossings [⟨closing, next.consumed⟩] ⟨group, boundary⟩ = [] := by
        intro boundary
        rw [ended, if_neg]
        intro same
        exact own (congrArg Tag.group same)
      rw [kept, within.spans, Trail.spansOf_append_of_quiet elsewhere]
  · intro group above
    unfold Trail.Closed
    by_cases own : group = number
    · unfold Trail.Closed at closed
      rw [own, List.append_assoc before, Trail.crossings_append before,
        Trail.crossings_append before, begun, finished, List.length_append, List.length_append,
        closed]
      rfl
    · have other : ∀ boundary, (⟨group, boundary⟩ : Tag) ≠ ⟨number, .closing⟩ :=
        fun boundary same => own (congrArg Tag.group same)
      rw [Trail.crossings_append, Trail.crossings_append _ [_], ended, ended, if_neg (other _),
        if_neg (other _), List.append_nil, List.append_nil]
      exact within.closed group (by omega)

theorem Moves.nullable {nullable : Bool} (moves : Moves number nullable progress next passage) :
    Moves number true progress next passage :=
  ⟨moves.le, fun isFalse => absurd isFalse (by decide), moves.quiet⟩

/-- One move after the other. -/
theorem Moves.trans {larger : Nat} {first second : Bool} {last : Progress} {more : Trail}
    (early : Moves number first progress next passage) (late : Moves larger second next last more)
    (le : number ≤ larger) : Moves number (first && second) progress last (passage ++ more) := by
  refine ⟨Nat.le_trans late.le early.le, ?_, ?_⟩
  · intro advances
    have earlyLe := early.le
    have lateLe := late.le
    rcases Bool.and_eq_false_iff.1 advances with isFalse | isFalse
    · have less := early.lt isFalse
      omega
    · have less := late.lt isFalse
      omega
  · intro tag below
    rw [Trail.crossings_append, early.quiet tag below, late.quiet tag (Nat.lt_of_lt_of_le below le)]
    rfl

/-- An edge without a tag that reads nothing. -/
theorem Moves.free {edge : Edge} (untagged : edge.tag = none) (consumed : Nat) :
    Moves number true progress progress [⟨edge, consumed⟩] :=
  ⟨Nat.le_refl _, fun isFalse => absurd isFalse (by decide),
    fun _ _ => Trail.crossings_untagged untagged consumed _⟩

/-- A character is read over an edge without a tag. -/
theorem Moves.read {edge : Edge} (untagged : edge.tag = none) {c : Char} {rest : List Char}
    (ahead : progress.rest = c :: rest) (consumed : Nat) :
    Moves number false progress ⟨rest, progress.consumed + 1, progress.spans⟩
      [⟨edge, consumed⟩] := by
  have shorter : rest.length < progress.rest.length := by
    rw [ahead, List.length_cons]
    omega
  exact ⟨Nat.le_of_lt shorter, fun _ => shorter,
    fun _ _ => Trail.crossings_untagged untagged consumed _⟩

end Progress

/-- What is done behind an expression is right about `tail`, wherever the expression leads. -/
def Automaton.Follows (automaton : Automaton) (tail : StateId) (number : Nat) (nullable : Bool)
    (progress : Progress) (before : Trail) (goOn : Progress → Option Progress) : Prop :=
  ∀ next passage, progress.Moves number nullable next passage →
    next.Tracks number (before ++ passage) →
    automaton.Decides tail next (before ++ passage) (goOn next)

section Attempts

variable {automaton : Automaton} {connections : List Connection}

namespace Automaton.Follows

variable {tail : StateId} {number : Nat} {progress : Progress} {before : Trail}
  {goOn : Progress → Option Progress}

/-- Fewer moves have to be followed if they have to read something. -/
theorem of_nullable {nullable smaller : Bool}
    (follows : automaton.Follows tail number nullable progress before goOn)
    (advances : nullable = false → smaller = false) :
    automaton.Follows tail number smaller progress before goOn :=
  fun next passage moves => follows next passage
    ⟨moves.le, fun isFalse => moves.lt (advances isFalse), moves.quiet⟩

/-- Behind one move come only moves that come behind both. -/
theorem after {larger : Nat} {first second : Bool} {next : Progress} {passage : Trail}
    (follows : automaton.Follows tail number (first && second) progress before goOn)
    (moves : progress.Moves number first next passage) (le : number ≤ larger)
    (tracks : next.Tracks number (before ++ passage)) :
    automaton.Follows tail larger second next (before ++ passage) goOn := by
  intro last more further tracked
  rw [List.append_assoc]
  apply follows last (passage ++ more) (moves.trans further le)
  rw [← List.append_assoc]
  refine ⟨tracked.spans, fun group above => ?_⟩
  by_cases later : larger ≤ group
  · exact tracked.closed group later
  · -- A group in between was closed before and is not touched again.
    have quiet : ∀ boundary, more.crossings ⟨group, boundary⟩ = [] :=
      fun boundary => further.quiet ⟨group, boundary⟩ (Nat.lt_of_not_le later)
    unfold Trail.Closed
    rw [Trail.crossings_append, Trail.crossings_append _ more, quiet, quiet, List.append_nil,
      List.append_nil]
    exact tracks.closed group above

/-- Behind the groups up to `larger` nothing has to be known about them. -/
theorem later {larger : Nat} {nullable : Bool}
    (follows : automaton.Follows tail number nullable progress before goOn) (le : number ≤ larger)
    (tracks : progress.Tracks number before) :
    automaton.Follows tail larger nullable progress before goOn := by
  have stays : progress.Moves number true progress [] :=
    ⟨Nat.le_refl _, fun isFalse => absurd isFalse (by decide), fun _ _ => rfl⟩
  rw [← List.append_nil before] at tracks ⊢
  rw [← Bool.true_and nullable] at follows
  exact follows.after stays le tracks

/-- One epsilon edge more. -/
theorem leave {last : StateId} {nullable : Bool} (draws : automaton.Draws connections)
    (leaves : (automaton.plan connections).Leaves last [.epsilon tail .normal])
    (follows : automaton.Follows tail number nullable progress before goOn) :
    automaton.Follows last number nullable progress before goOn := by
  intro next passage moves tracks
  apply leaves.decides_one draws rfl
  intro edge untagged
  have longer := moves.trans (.free untagged next.consumed) (Nat.le_refl _)
  rw [Bool.and_true] at longer
  have tracked := tracks.untagged rfl untagged next.consumed
  rw [List.append_assoc] at tracked ⊢
  exact follows next _ longer tracked

/-- What comes behind an edge without a tag. -/
theorem free {nullable : Bool} {edge : Edge} (untagged : edge.tag = none)
    (follows : automaton.Follows tail number nullable progress before goOn)
    (tracks : progress.Tracks number before) :
    automaton.Follows tail number nullable progress (before ++ [⟨edge, progress.consumed⟩])
      goOn := by
  rw [← Bool.true_and nullable] at follows
  exact follows.after (.free untagged progress.consumed) (Nat.le_refl _)
    (tracks.untagged rfl untagged progress.consumed)

end Automaton.Follows

/-- A repetition is right about the states that enter its body or leave, if the body always reads
something and is right about its first state. -/
theorem Greed.iterate_spec (draws : automaton.Draws connections) {greed : Greed} {number : Nat}
    {first last tail : StateId} {body : (Progress → Option Progress) → Progress → Option Progress}
    (once : ∀ progress before goOn, progress.Tracks number before →
      automaton.Follows last number false progress before goOn →
      automaton.Decides first progress before (body goOn progress))
    (leaves : (automaton.plan connections).Leaves last (Quantifier.star.lastArms greed first tail))
    {state : StateId}
    (atState : (automaton.plan connections).Leaves state
      (Quantifier.star.lastArms greed first tail))
    {progress : Progress} {before : Trail} {goOn : Progress → Option Progress}
    (tracks : progress.Tracks number before)
    (follows : automaton.Follows tail number true progress before goOn) :
    automaton.Decides state progress before (greed.iterate body goOn progress) := by
  induction ahead : progress.rest.length using Nat.strongRecOn
    generalizing state progress before with
  | ind bound ih =>
    rw [Greed.iterate]
    apply atState.decides_choose draws
    · intro edge untagged
      have tracked := tracks.untagged rfl untagged progress.consumed
      apply once progress _ _ tracked
      intro next passage moves tracks'
      have shorter := moves.lt rfl
      show automaton.Decides last next _ (if _ then _ else _)
      rw [if_pos shorter]
      apply ih next.rest.length (by omega) leaves tracks' ?_ rfl
      exact (follows.free untagged tracks).after moves.nullable (Nat.le_refl _) tracks'
    · intro edge untagged
      exact follows progress _ (.free untagged progress.consumed)
        (tracks.untagged rfl untagged progress.consumed)

/-- Reading is right about a state if the answers behind the character are. -/
theorem Progress.read_spec (draws : automaton.Draws connections) {ranges : List CharRange}
    {head tail : StateId} (leaves : (automaton.plan connections).Leaves head
      (ranges.map fun range => .read range tail))
    {accepts : Char → Bool} (same : ∀ c, accepts c = ranges.any fun range => c ∈ range)
    {number : Nat} {progress : Progress} {before : Trail} {goOn : Progress → Option Progress}
    (tracks : progress.Tracks number before)
    (follows : automaton.Follows tail number false progress before goOn) :
    automaton.Decides head progress before (progress.read accepts goOn) := by
  rw [funext same]
  apply leaves.decides_read draws
  intro edge c rest untagged ahead
  have kept : (Progress.mk rest (progress.consumed + 1) progress.spans).spans =
    progress.spans := rfl
  exact follows _ _ (.read untagged ahead _) (tracks.untagged kept untagged _)

/-- Every arm behind the first one is low. -/
theorem Plan.LaysBranches.low {plan : Plan} {branches : List Regex} {number : Nat} {tail : StateId}
    {arms : List Arm} (lays : plan.LaysBranches number tail .low arms branches) {arm : Arm}
    (member : arm ∈ arms) : arm.priority = .low := by
  induction branches generalizing number arms with
  | nil =>
    rw [LaysBranches] at lays
    rw [lays] at member
    cases member
  | cons branch others ih =>
    rw [LaysBranches] at lays
    rcases lays with ⟨first, last, otherArms, rfl, -, -, laysOthers⟩
    rcases List.mem_cons.1 member with rfl | later
    · rfl
    · exact ih laysOthers later

mutual

/-- The answer of an expression in which every loop reads something is right about its first state,
if what is done behind it is right about its last one. -/
theorem Regex.attempt_spec (draws : automaton.Draws connections) (regex : Regex)
    (advance : regex.LoopsAdvance) {number : Nat} {head tail : StateId}
    (lays : (automaton.plan connections).Lays number head tail regex) {progress : Progress}
    {before : Trail} {goOn : Progress → Option Progress} (tracks : progress.Tracks number before)
    (follows : automaton.Follows tail number regex.nullable progress before goOn) :
    automaton.Decides head progress before (regex.attempt number goOn progress) := by
  cases regex with
  | any =>
    rw [Plan.Lays] at lays
    have leaves : (automaton.plan connections).Leaves head
      ([CharRange.all].map fun range => .read range tail) := lays
    rw [Regex.attempt]
    apply Progress.read_spec draws leaves ?_ tracks follows
    intro c
    rw [List.any_cons, decide_eq_true (CharRange.mem_all c)]
    rfl
  | lit c =>
    rw [Plan.Lays] at lays
    have leaves : (automaton.plan connections).Leaves head
      ([CharRange.single c].map fun range => .read range tail) := lays
    rw [Regex.attempt]
    apply Progress.read_spec draws leaves ?_ tracks follows
    intro other
    simp only [List.any_cons, CharRange.mem_single, List.any_nil, Bool.or_false]
  | set ranges =>
    rw [Plan.Lays] at lays
    rw [Regex.attempt]
    exact Progress.read_spec draws lays (fun _ => rfl) tracks follows
  | atEnd =>
    rw [Plan.Lays] at lays
    rw [Regex.attempt]
    apply lays.decides_atEnd draws
    intro edge untagged _
    exact follows progress _ (.free untagged progress.consumed)
      (tracks.untagged rfl untagged progress.consumed)
  | group body =>
    rw [Plan.Lays] at lays
    rcases lays with ⟨first, last, opens, inside, closes⟩
    rw [Regex.LoopsAdvance] at advance
    rw [Regex.attempt]
    apply opens.decides_one draws rfl
    intro opening opensTag
    apply Regex.attempt_spec draws body advance inside (tracks.opened opensTag progress.consumed)
    intro next passage moves tracks'
    apply closes.decides_one draws rfl
    intro closing closesTag
    rw [List.append_assoc before] at tracks' ⊢
    have passed : progress.Moves number body.nullable (next.record number progress.consumed)
        ([⟨opening, progress.consumed⟩] ++ passage ++ [⟨closing, next.consumed⟩]) := by
      refine ⟨moves.le, moves.lt, fun tag below => ?_⟩
      have other : ∀ boundary, tag ≠ ⟨number, boundary⟩ := by
        rintro boundary rfl
        exact Nat.lt_irrefl _ below
      rw [Trail.crossings_append, Trail.crossings_append, Trail.crossings_tagged opensTag,
        Trail.crossings_tagged closesTag, if_neg (other _), if_neg (other _),
        moves.quiet tag (Nat.lt_succ_of_lt below)]
      rfl
    have recorded := tracks.closing opensTag closesTag moves.quiet tracks'
    rw [List.append_assoc before] at recorded ⊢
    rw [Regex.nullable] at follows
    exact follows (next.record number progress.consumed) _ passed recorded
  | rep quantifier greed body =>
    rw [Plan.Lays] at lays
    rcases lays with ⟨first, last, begins, inside, goesOn⟩
    rw [Regex.LoopsAdvance] at advance
    have once : ∀ progress before goOn, progress.Tracks number before →
        automaton.Follows last number body.nullable progress before goOn →
        automaton.Decides first progress before (body.attempt number goOn progress) :=
      fun progress before goOn => Regex.attempt_spec draws body advance.2 inside
    have nonempty : quantifier ≠ .opt → body.nullable = false := by
      intro loops
      rw [Bool.eq_false_iff, Ne, Regex.nullable_iff_spells]
      exact advance.1 loops
    cases quantifier with
    | star =>
      rw [nonempty (by decide)] at once
      rw [Regex.attempt]
      exact Greed.iterate_spec draws once goesOn begins tracks follows
    | plus =>
      have advances := nonempty (by decide)
      rw [advances] at once
      rw [Regex.nullable, advances] at follows
      rw [Regex.attempt]
      apply begins.decides_one draws rfl
      intro edge untagged
      apply once progress _ _ (tracks.untagged rfl untagged progress.consumed)
      intro next passage moves tracks'
      apply Greed.iterate_spec draws once goesOn goesOn tracks'
      exact (follows.free untagged tracks).after moves (Nat.le_refl _) tracks'
    | opt =>
      rw [Regex.attempt]
      apply begins.decides_choose draws
      · intro edge untagged
        apply once progress _ _ (tracks.untagged rfl untagged progress.consumed)
        apply ((follows.free untagged tracks).leave draws goesOn).of_nullable
        intro isFalse
        cases isFalse
      · intro edge untagged
        exact follows progress _ (.free untagged progress.consumed)
          (tracks.untagged rfl untagged progress.consumed)
  | alt branches =>
    rw [Plan.Lays] at lays
    rcases lays with ⟨arms, leaves, laysBranches⟩
    rw [Regex.LoopsAdvance] at advance
    rw [Regex.attempt]
    apply leaves.decides draws
    intro exits listed ordered
    exact Regex.attemptBranches_spec draws branches advance laysBranches listed ordered tracks
      follows
  | cat items =>
    rw [Plan.Lays] at lays
    rw [Regex.LoopsAdvance] at advance
    rw [Regex.attempt]
    exact Regex.attemptItems_spec draws items advance lays tracks follows

theorem Regex.attemptBranches_spec (draws : automaton.Draws connections) (branches : List Regex)
    (advance : Regex.AllLoopsAdvance branches) {number : Nat} {tail : StateId}
    {priority : Priority} {arms : List Arm}
    (lays : (automaton.plan connections).LaysBranches number tail priority arms branches)
    {exits : List Connection} (listed : exits.map Connection.arm = arms)
    (ordered : exits.Pairwise fun a b => a.edge.seq < b.edge.seq) {progress : Progress}
    {before : Trail} {goOn : Progress → Option Progress} (tracks : progress.Tracks number before)
    (follows : automaton.Follows tail number (Regex.anyNullable branches) progress before goOn) :
    Settles (automaton.Over exits progress.rest progress.consumed) before
      (Regex.attemptBranches number branches goOn progress) := by
  cases branches with
  | nil =>
    rw [Plan.LaysBranches] at lays
    rw [lays] at listed
    rw [List.map_eq_nil_iff.1 listed, Regex.attemptBranches]
    exact Automaton.settles_over_nil _ _ _
  | cons branch others =>
    rw [Plan.LaysBranches] at lays
    rcases lays with ⟨first, last, otherArms, rfl, inside, leaves, laysOthers⟩
    rcases List.map_eq_cons_iff.1 listed with ⟨exit, later, rfl, exitArm, laterListed⟩
    rcases List.pairwise_cons.1 ordered with ⟨least, laterOrdered⟩
    rw [Regex.AllLoopsAdvance] at advance
    rw [Regex.anyNullable] at follows
    rw [Regex.attemptBranches]
    have untagged : exit.edge.tag = none := congrArg Arm.tag exitArm
    have target : exit.edge.target = first := congrArg Arm.target exitArm
    apply Automaton.settles_over_cons
    · apply Automaton.settles_over_epsilon (congrArg Arm.label exitArm)
      rw [target]
      apply Regex.attempt_spec draws branch advance.1 inside (tracks.untagged rfl untagged _)
      apply ((follows.free untagged tracks).leave draws leaves).of_nullable
      exact fun isFalse => (Bool.or_eq_false_iff.1 isFalse).1
    · have le := Nat.le_add_right number branch.groupCount
      apply Regex.attemptBranches_spec draws others advance.2 laysOthers laterListed laterOrdered
        (tracks.mono le)
      apply (follows.later le tracks).of_nullable
      exact fun isFalse => (Bool.or_eq_false_iff.1 isFalse).2
    · intro other member
      have otherArm := List.mem_map_of_mem (f := Connection.arm) member
      rw [laterListed] at otherArm
      have otherPriority : other.edge.priority = .low := laysOthers.low otherArm
      have exitPriority : exit.edge.priority = priority := congrArg Arm.priority exitArm
      rw [Edge.before_iff, exitPriority, otherPriority]
      cases priority with
      | normal => exact Or.inl ⟨rfl, rfl⟩
      | low => exact Or.inr ⟨rfl, least other member⟩

theorem Regex.attemptItems_spec (draws : automaton.Draws connections) (items : List Regex)
    (advance : Regex.AllLoopsAdvance items) {number : Nat} {head tail : StateId}
    (lays : (automaton.plan connections).LaysItems number head tail items) {progress : Progress}
    {before : Trail} {goOn : Progress → Option Progress} (tracks : progress.Tracks number before)
    (follows : automaton.Follows tail number (Regex.allNullable items) progress before goOn) :
    automaton.Decides head progress before (Regex.attemptItems number items goOn progress) := by
  cases items with
  | nil =>
    rw [Plan.LaysItems] at lays
    rw [Regex.attemptItems]
    apply lays.decides_one draws rfl
    intro edge untagged
    exact follows progress _ (.free untagged progress.consumed)
      (tracks.untagged rfl untagged progress.consumed)
  | cons item others =>
    rw [Regex.AllLoopsAdvance] at advance
    rw [Regex.allNullable] at follows
    rw [Regex.attemptItems]
    have le := Nat.le_add_right number item.groupCount
    cases others with
    | nil =>
      rw [Plan.LaysItems] at lays
      rw [Regex.allNullable, Bool.and_true] at follows
      have same : Regex.attemptItems (number + item.groupCount) [] goOn = goOn := by
        funext passed
        rw [Regex.attemptItems]
      rw [same]
      exact Regex.attempt_spec draws item advance.1 lays tracks follows
    | cons next more =>
      rw [Plan.LaysItems] at lays
      rcases lays with ⟨middle, laysItem, laysMore⟩
      apply Regex.attempt_spec draws item advance.1 laysItem tracks
      intro passed passage moves tracks'
      exact Regex.attemptItems_spec draws (next :: more) advance.2 laysMore (tracks'.mono le)
        (follows.after moves le tracks')

end

end Attempts

end TaggedRegex
