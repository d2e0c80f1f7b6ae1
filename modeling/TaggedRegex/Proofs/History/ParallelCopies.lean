import TaggedRegex.Proofs.History.Execution
import TaggedRegex.Proofs.History.Walk

set_option autoImplicit false

/-!
The copies of a renaming take place as if all at once: `performAll_instructions` says that
afterwards every target holds what its source held before, and that all other histories but the
scratch history are as they were.

The names fall into chains and cycles, which no pair of the renaming connects. Each of them is
copied on its own, and `Shifts.append` puts the parts together.
-/

namespace TaggedRegex.Renaming

/-- No pair leads into the names or out of them. -/
def Closed (pairs : List (HistoryId × HistoryId)) (names : List HistoryId) : Prop :=
  ∀ source target, (source, target) ∈ pairs → (source ∈ names ↔ target ∈ names)

/-- The instructions give the targets among the names what their sources held, and change nothing
else but the scratch history. -/
def Shifts (pairs : List (HistoryId × HistoryId)) (scratch : HistoryId) (names : List HistoryId)
    (instructions : List Instruction) : Prop :=
  ∀ (memory : Memory) (position : Int),
    (∀ source target, (source, target) ∈ pairs → source ∈ names →
      ∃ history, memory.get? source = some history) →
    ∃ after, memory.performAll position instructions = .ok after ∧
      (∀ source target, (source, target) ∈ pairs → target ∈ names →
        after.get? target = memory.get? source) ∧
      ∀ id, id ≠ scratch → (id ∈ names → ∀ source, (source, id) ∉ pairs) →
        after.get? id = memory.get? id

/-- The scratch history takes no part in the renaming. -/
def Avoids (pairs : List (HistoryId × HistoryId)) (scratch : HistoryId) : Prop :=
  ∀ source target, (source, target) ∈ pairs → source ≠ scratch ∧ target ≠ scratch

variable {pairs : List (HistoryId × HistoryId)} {scratch : HistoryId}

theorem Closed.nil : Closed pairs [] := by
  intro source target member
  simp

theorem Closed.append {left right : List HistoryId} (leftClosed : Closed pairs left)
    (rightClosed : Closed pairs right) : Closed pairs (left ++ right) := by
  intro source target member
  rw [List.mem_append, List.mem_append, leftClosed source target member,
    rightClosed source target member]

/-- A closed set holds all names of a walk or none. -/
theorem Closed.mem_iff_first {done : List HistoryId} (closed : Closed pairs done)
    {first : HistoryId} {names : List HistoryId}
    (paired : ∀ pair ∈ neighbours first names, pair ∈ pairs) (id : HistoryId)
    (member : id ∈ first :: names) : id ∈ done ↔ first ∈ done := by
  induction names generalizing first with
  | nil => rw [List.mem_singleton.1 member]
  | cons second names ih =>
    rcases List.mem_cons.1 member with rfl | later
    · exact Iff.rfl
    · have step := closed first second (paired (first, second) (by simp))
      have rest := ih (fun pair inside => paired pair (by simp [inside])) later
      exact rest.trans step.symm

theorem Shifts.nil : Shifts pairs scratch [] [] := by
  intro memory position _
  refine ⟨memory, rfl, ?_, fun id _ _ => rfl⟩
  intro source target _ member
  cases member

/-- Parts that no pair connects can be copied one after the other. -/
theorem Shifts.append {left right : List HistoryId} {first second : List Instruction}
    (avoids : Avoids pairs scratch) (leftShifts : Shifts pairs scratch left first)
    (rightShifts : Shifts pairs scratch right second) (rightClosed : Closed pairs right)
    (apart : ∀ id ∈ right, id ∉ left) :
    Shifts pairs scratch (left ++ right) (first ++ second) := by
  intro memory position exist
  obtain ⟨middle, leftRuns, leftMoved, leftKept⟩ := leftShifts memory position
    fun source target member inside => exist source target member (List.mem_append_left _ inside)
  have unmoved : ∀ id ∈ right, id ≠ scratch → middle.get? id = memory.get? id := by
    intro id inside other
    exact leftKept id other fun also => absurd also (apart id inside)
  obtain ⟨after, rightRuns, rightMoved, rightKept⟩ := rightShifts middle position
    fun source target member inside => by
      rw [unmoved source inside (avoids source target member).1]
      exact exist source target member (List.mem_append_right _ inside)
  refine ⟨after, ?_, ?_, ?_⟩
  · rw [Memory.performAll_append_of_ok leftRuns, rightRuns]
  · intro source target member inside
    rcases List.mem_append.1 inside with inLeft | inRight
    · have outside : target ∉ right := fun also => apart target also inLeft
      rw [rightKept target (avoids source target member).2 (fun also => absurd also outside)]
      exact leftMoved source target member inLeft
    · have sourceRight := (rightClosed source target member).2 inRight
      rw [rightMoved source target member inRight]
      exact unmoved source sourceRight (avoids source target member).1
  · intro id other untouched
    rw [rightKept id other fun inside => untouched (List.mem_append_right _ inside)]
    exact leftKept id other fun inside => untouched (List.mem_append_left _ inside)

/-! ### One chain, one cycle -/

theorem copies_cons_cons (first second : HistoryId) (names : List HistoryId) :
    copies (first :: second :: names) = copies (second :: names) ++ [.copy second first] := by
  simp [copies]

/-- Copying from the end to the beginning moves every value one name further. -/
theorem performAll_copies (memory : Memory) (position : Int) (first : HistoryId)
    (names : List HistoryId) (distinct : (first :: names).Nodup)
    (exist : ∀ pair ∈ neighbours first names, ∃ history, memory.get? pair.1 = some history) :
    ∃ after, memory.performAll position (copies (first :: names)) = .ok after ∧
      (∀ pair ∈ neighbours first names, after.get? pair.2 = memory.get? pair.1) ∧
      ∀ id, id ∉ names → after.get? id = memory.get? id := by
  induction names generalizing first with
  | nil => exact ⟨memory, rfl, by simp, fun id _ => rfl⟩
  | cons second names ih =>
    obtain ⟨firstNew, restDistinct⟩ := List.nodup_cons.1 distinct
    obtain ⟨after, runs, moved, kept⟩ := ih second restDistinct
      fun pair member => exist pair (by simp [member])
    obtain ⟨history, found⟩ := exist (first, second) (by simp)
    have unmoved : after.get? first = some history := by
      rw [kept first fun inside => firstNew (List.mem_cons_of_mem second inside), found]
    refine ⟨after.put second history, ?_, ?_, ?_⟩
    · rw [copies_cons_cons, Memory.performAll_append_of_ok runs, Memory.performAll_copy unmoved,
        Memory.performAll_nil]
    · intro pair member
      rw [Memory.get?_put]
      rcases List.mem_cons.1 member with rfl | later
      · rw [if_pos rfl, found]
      · have different : pair.2 ≠ second := by
          rintro rfl
          exact (List.nodup_cons.1 restDistinct).1 (mem_of_mem_neighbours later).2
        rw [if_neg different, moved pair later]
    · intro id outside
      rw [List.mem_cons, not_or] at outside
      rw [Memory.get?_put, if_neg outside.1, kept id outside.2]

/-- The names of a walk are connected to no others if the walk ends at a name without an image and
begins at one that is nobody's image, or if it comes back to its beginning. -/
theorem closed_of_walk (one : OneToOne pairs) {source : HistoryId}
    (first : source ∈ walk pairs source ∨ ∀ other, (other, source) ∉ pairs)
    (last : ∀ id, (source :: walk pairs source).getLast? = some id →
      pairs.lookup id = none ∨ id = source ∧ id ∈ walk pairs source) :
    Closed pairs (source :: walk pairs source) := by
  intro a b member
  constructor
  · intro inside
    have found : ∃ next, (a, next) ∈ neighbours source (walk pairs source) := by
      rcases exists_after inside with ends | found
      · rcases last a ends with missing | ⟨rfl, again⟩
        · rw [one.lookup_eq_some member] at missing
          cases missing
        · cases walked : walk pairs a with
          | nil =>
            rw [walked] at again
            cases again
          | cons second names => exact ⟨second, by simp⟩
      · exact found
    obtain ⟨next, found⟩ := found
    rw [one.image_unique member (neighbours_walk found)]
    exact List.mem_cons_of_mem source (mem_of_mem_neighbours found).2
  · intro inside
    have walked : b ∈ walk pairs source := by
      rcases List.mem_cons.1 inside with rfl | later
      · exact first.resolve_right fun none => none a member
      · exact later
    obtain ⟨before, found⟩ := exists_before source walked
    rw [one.preimage_unique member (neighbours_walk found)]
    exact (mem_of_mem_neighbours found).1

/-- Nobody's image is a name that a walk comes back to. -/
theorem not_mem_walk_of_start {source : HistoryId} (start : ∀ other, (other, source) ∉ pairs)
    (origin : HistoryId) : source ∉ walk pairs origin := by
  intro inside
  obtain ⟨other, member⟩ := exists_mem_of_mem_walk inside
  exact start other member

theorem closed_chain (one : OneToOne pairs) {source : HistoryId}
    (start : ∀ other, (other, source) ∉ pairs) : Closed pairs (source :: walk pairs source) :=
  closed_of_walk one (Or.inr start) fun _ ends => one.walk_ends ends

theorem shifts_chain (one : OneToOne pairs) {source : HistoryId}
    (start : ∀ other, (other, source) ∉ pairs) :
    Shifts pairs scratch (source :: walk pairs source) (copies (source :: walk pairs source)) := by
  intro memory position exist
  have distinct : (source :: walk pairs source).Nodup :=
    List.nodup_cons.2 ⟨not_mem_walk_of_start start source, one.nodup_walk source⟩
  obtain ⟨after, runs, moved, kept⟩ := performAll_copies memory position source
    (walk pairs source) distinct fun pair member =>
      exist pair.1 pair.2 (neighbours_walk member) (mem_of_mem_neighbours member).1
  refine ⟨after, runs, ?_, ?_⟩
  · intro a b member inside
    have walked : b ∈ walk pairs source := by
      rcases List.mem_cons.1 inside with rfl | later
      · exact absurd member (start a)
      · exact later
    obtain ⟨before, found⟩ := exists_before source walked
    rw [one.preimage_unique member (neighbours_walk found)]
    exact moved (before, b) found
  · intro id _ untouched
    apply kept
    intro walked
    obtain ⟨before, found⟩ := exists_mem_of_mem_walk walked
    exact untouched (List.mem_cons_of_mem source walked) before found

theorem closed_cycle (one : OneToOne pairs) {source : HistoryId} {front : List HistoryId}
    (returns : walk pairs source = front ++ [source]) : Closed pairs (source :: front) := by
  have back : source ∈ walk pairs source := by simp [returns]
  have whole : Closed pairs (source :: walk pairs source) :=
    closed_of_walk one (Or.inl back) fun _ ends => one.walk_ends ends
  intro a b member
  have same : ∀ id, id ∈ source :: front ↔ id ∈ source :: walk pairs source := by
    intro id
    rw [returns]
    simp only [List.mem_cons, List.mem_append]
    grind
  rw [same, same]
  exact whole a b member

/-- The last value of a cycle waits in the scratch history until its target is free. -/
theorem shifts_cycle (one : OneToOne pairs) (avoids : Avoids pairs scratch) {source : HistoryId}
    {front : List HistoryId} (returns : walk pairs source = front ++ [source]) :
    Shifts pairs scratch (source :: front) (cycleCopies scratch (source :: front)) := by
  intro memory position exist
  obtain ⟨last, ends, split⟩ := neighbours_concat source source front
  rw [← returns] at split
  have paired : ∀ pair ∈ neighbours source front ++ [(last, source)], pair ∈ pairs := by
    intro pair member
    exact neighbours_walk (split ▸ member)
  have closing : (last, source) ∈ pairs := paired _ (by simp)
  have distinct : (source :: front).Nodup := by
    have walked := one.nodup_walk source
    rw [returns] at walked
    rw [List.nodup_cons]
    grind
  have target : ∀ b ∈ source :: front, ∃ a, (a, b) ∈ pairs := by
    intro b inside
    rcases List.mem_cons.1 inside with rfl | later
    · exact ⟨last, closing⟩
    · obtain ⟨a, found⟩ := exists_before source later
      exact ⟨a, paired (a, b) (List.mem_append_left _ found)⟩
  have notScratch : ∀ b ∈ source :: front, b ≠ scratch := by
    intro b inside
    obtain ⟨a, member⟩ := target b inside
    exact (avoids a b member).2
  obtain ⟨history, found⟩ := exist last source closing (List.mem_of_getLast? ends)
  let parked := memory.put scratch history
  have parked_get : ∀ id, id ≠ scratch → parked.get? id = memory.get? id := by
    intro id other
    rw [Memory.get?_put, if_neg other]
  obtain ⟨shifted, runs, moved, kept⟩ := performAll_copies parked position source front distinct
    fun pair member => by
      have inside := (mem_of_mem_neighbours member).1
      rw [parked_get pair.1 (notScratch pair.1 inside)]
      exact exist pair.1 pair.2 (paired pair (List.mem_append_left _ member)) inside
  have scratch_get : shifted.get? scratch = some history := by
    rw [kept scratch fun inside => notScratch scratch (List.mem_cons_of_mem _ inside) rfl,
      Memory.get?_put, if_pos rfl]
  refine ⟨(shifted.put source history).put scratch .blank, ?_, ?_, ?_⟩
  · simp only [cycleCopies, ends, List.cons_append]
    rw [Memory.performAll_copy found, Memory.performAll_append_of_ok runs,
      Memory.performAll_copy scratch_get, Memory.performAll_reset, Memory.performAll_nil]
  · intro a b member inside
    rw [Memory.get?_put, if_neg (notScratch b inside), Memory.get?_put]
    rcases List.mem_cons.1 inside with rfl | later
    · rw [if_pos rfl, one.preimage_unique member closing, found]
    · have different : b ≠ source := fun same => (List.nodup_cons.1 distinct).1 (same ▸ later)
      obtain ⟨before, next⟩ := exists_before source later
      have same := one.preimage_unique member (paired _ (List.mem_append_left _ next))
      rw [if_neg different, moved (before, b) next, ← same,
        parked_get a (avoids a b member).1]
  · intro id other untouched
    have outside : id ∉ source :: front := by
      intro inside
      obtain ⟨a, member⟩ := target id inside
      exact untouched inside a member
    rw [List.mem_cons, not_or] at outside
    rw [Memory.get?_put, if_neg other, Memory.get?_put, if_neg outside.1, kept id outside.2,
      parked_get id other]

/-! ### All chains, all cycles -/

theorem mem_chainStarts {pairing : Renaming} {source : HistoryId} :
    source ∈ pairing.chainStarts ↔
      (∃ target, (source, target) ∈ pairing.pairs) ∧ ∀ other, (other, source) ∉ pairing.pairs := by
  unfold chainStarts preimage?
  rw [List.mem_filter, Option.isNone_iff_eq_none, List.lookup_eq_none_iff, List.mem_map]
  constructor
  · rintro ⟨⟨pair, member, rfl⟩, absent⟩
    refine ⟨⟨pair.2, member⟩, fun other also => ?_⟩
    have clash := absent (pair.1, other) (mem_swap_iff.2 also)
    simp at clash
  · rintro ⟨⟨target, member⟩, absent⟩
    refine ⟨⟨(source, target), member, rfl⟩, fun pair inside => ?_⟩
    rw [bne_iff_ne]
    intro same
    exact absent pair.2 (mem_swap_iff.1 (by rw [same]; exact inside))

/-- The chains of different beginnings share no name. -/
theorem chains_apart {first second id : HistoryId} (one : OneToOne pairs)
    (firstStart : ∀ other, (other, first) ∉ pairs) (secondStart : ∀ other, (other, second) ∉ pairs)
    (inFirst : id ∈ first :: walk pairs first) (inSecond : id ∈ second :: walk pairs second) :
    first = second := by
  have closed := closed_chain one secondStart
  have begins := (closed.mem_iff_first (fun pair member => neighbours_walk member) id inFirst).1
    inSecond
  rcases List.mem_cons.1 begins with same | walked
  · exact same
  · exact absurd walked (not_mem_walk_of_start firstStart second)

/-- The names on the chains. -/
def chained (pairing : Renaming) : List HistoryId :=
  (pairing.chainStarts.map pairing.chainFrom).flatten

theorem mem_chained_of_start {pairing : Renaming} {start : HistoryId}
    (begins : start ∈ pairing.chainStarts) : start ∈ pairing.chained :=
  List.mem_flatten.2 ⟨_, List.mem_map_of_mem begins, List.mem_cons_self ..⟩

theorem closed_flatten {parts : List (List HistoryId)}
    (each : ∀ names ∈ parts, Closed pairs names) : Closed pairs parts.flatten := by
  induction parts with
  | nil => exact Closed.nil
  | cons names rest ih =>
    exact (each names (List.mem_cons_self ..)).append
      (ih fun other member => each other (List.mem_cons_of_mem _ member))

theorem closed_chained {pairing : Renaming} (one : OneToOne pairing.pairs) :
    Closed pairing.pairs pairing.chained := by
  apply closed_flatten
  intro names member
  obtain ⟨start, begins, rfl⟩ := List.mem_map.1 member
  exact closed_chain one (mem_chainStarts.1 begins).2

theorem shifts_chains (one : OneToOne pairs) (avoids : Avoids pairs scratch)
    (starts : List HistoryId) (distinct : starts.Nodup)
    (begins : ∀ start ∈ starts, ∀ other, (other, start) ∉ pairs) :
    Closed pairs (starts.flatMap fun start => start :: walk pairs start) ∧
      Shifts pairs scratch (starts.flatMap fun start => start :: walk pairs start)
        (starts.flatMap fun start => copies (start :: walk pairs start)) := by
  induction starts with
  | nil => exact ⟨Closed.nil, Shifts.nil⟩
  | cons start starts ih =>
    obtain ⟨fresh, restDistinct⟩ := List.nodup_cons.1 distinct
    have first : ∀ other, (other, start) ∉ pairs := begins start (by simp)
    obtain ⟨restClosed, restShifts⟩ := ih restDistinct
      fun other member => begins other (List.mem_cons_of_mem start member)
    rw [List.flatMap_cons, List.flatMap_cons]
    refine ⟨(closed_chain one first).append restClosed, ?_⟩
    apply Shifts.append avoids (shifts_chain one first) restShifts restClosed
    intro id inRest inFirst
    obtain ⟨other, member, inOther⟩ := List.mem_flatMap.1 inRest
    have same := chains_apart one first (begins other (List.mem_cons_of_mem start member)) inFirst
      inOther
    exact fresh (same ▸ member)

/-- A source outside a closed set that holds all beginnings of chains lies on a cycle: walking
backwards never ends, so walking forwards does not end either. -/
theorem walk_returns (one : OneToOne pairs) {done : List HistoryId} (closed : Closed pairs done)
    (starts : ∀ start target, (start, target) ∈ pairs → (∀ other, (other, start) ∉ pairs) →
      start ∈ done)
    {source target : HistoryId} (member : (source, target) ∈ pairs) (outside : source ∉ done) :
    ∃ front, walk pairs source = front ++ [source] := by
  let back := walk (pairs.map Prod.swap) source
  have backPair : ∀ pair ∈ neighbours source back, (pair.2, pair.1) ∈ pairs :=
    fun pair inside => mem_swap_iff.1 (neighbours_walk inside)
  have hasImage : ∀ id ∈ source :: back, ∃ next, (id, next) ∈ pairs := by
    intro id inside
    rcases List.mem_cons.1 inside with rfl | later
    · exact ⟨target, member⟩
    · obtain ⟨before, found⟩ := exists_before source later
      exact ⟨before, backPair _ found⟩
  have around : source ∈ back := by
    obtain ⟨last, ends⟩ : ∃ last, (source :: back).getLast? = some last := ⟨_, rfl⟩
    have last_mem : last ∈ source :: back := List.mem_of_getLast? ends
    rcases one.swap.walk_ends ends with missing | ⟨rfl, again⟩
    · obtain ⟨next, image⟩ := hasImage last last_mem
      have begins : last ∈ done := by
        apply starts last next image
        intro other also
        rw [one.swap.lookup_eq_some (mem_swap_iff.2 also)] at missing
        cases missing
      have swapped : Closed (pairs.map Prod.swap) done := by
        intro a b inside
        exact (closed b a (mem_swap_iff.1 inside)).symm
      exact absurd ((swapped.mem_iff_first (fun pair inside => neighbours_walk inside) last
        last_mem).1 begins) outside
    · exact again
  have backClosed : Closed pairs (source :: back) := by
    have whole : Closed (pairs.map Prod.swap) (source :: back) :=
      closed_of_walk one.swap (Or.inl around) fun _ ends => one.swap.walk_ends ends
    intro a b inside
    exact (whole b a (mem_swap_iff.2 inside)).symm
  obtain ⟨last, ends⟩ : ∃ last, (source :: walk pairs source).getLast? = some last := ⟨_, rfl⟩
  have last_mem : last ∈ source :: walk pairs source := List.mem_of_getLast? ends
  rcases one.walk_ends ends with missing | ⟨rfl, again⟩
  · have inside : last ∈ source :: back :=
      (backClosed.mem_iff_first (fun pair inside => neighbours_walk inside) last last_mem).2
        (by simp)
    obtain ⟨next, image⟩ := hasImage last inside
    rw [one.lookup_eq_some image] at missing
    cases missing
  · have nonempty : walk pairs last ≠ [] := List.ne_nil_of_mem again
    rw [List.getLast?_cons_of_ne_nil nonempty] at ends
    exact List.getLast?_eq_some_iff.1 ends

variable {pairing : Renaming}

/-- The second half of the instructions: whatever is not done yet and not its own image lies on a
cycle, and each cycle is dealt with once. -/
theorem shifts_cycles (one : OneToOne pairing.pairs) (avoids : Avoids pairing.pairs scratch)
    (sources : List HistoryId) (isSource : ∀ source ∈ sources, ∃ target,
      (source, target) ∈ pairing.pairs)
    (done : List HistoryId) (closed : Closed pairing.pairs done)
    (starts : ∀ start ∈ pairing.chainStarts, start ∈ done) :
    ∃ names, Closed pairing.pairs names ∧ (∀ id ∈ names, id ∉ done) ∧
      Shifts pairing.pairs scratch names (pairing.cyclesInstructions scratch sources done) ∧
      ∀ source ∈ sources, source ∈ done ∨ source ∈ names ∨ (source, source) ∈ pairing.pairs := by
  induction sources generalizing done with
  | nil => exact ⟨[], Closed.nil, by simp, Shifts.nil, by simp⟩
  | cons source sources ih =>
    have restSource := fun other member => isSource other (List.mem_cons_of_mem source member)
    rw [cyclesInstructions]
    by_cases settled : source ∈ done ∨ pairing.image? source = some source
    · obtain ⟨names, namesClosed, apart, shifts, covered⟩ := ih restSource done closed starts
      rw [if_pos settled]
      refine ⟨names, namesClosed, apart, shifts, ?_⟩
      intro other member
      rcases List.mem_cons.1 member with rfl | later
      · rcases settled with inside | fixed
        · exact Or.inl inside
        · exact Or.inr (Or.inr (mem_of_lookup fixed))
      · exact covered other later
    · rw [if_neg settled]
      rw [not_or] at settled
      obtain ⟨target, member⟩ := isSource source (by simp)
      obtain ⟨front, returns⟩ := walk_returns one closed
        (fun start next image first => starts start (mem_chainStarts.2 ⟨⟨next, image⟩, first⟩))
        member settled.1
      have cycle : (pairing.chainFrom source).dropLast = source :: front := by
        rw [chainFrom, returns, ← List.cons_append, List.dropLast_concat]
      have cycleClosed := closed_cycle one returns
      obtain ⟨names, namesClosed, apart, shifts, covered⟩ := ih restSource
        ((source :: front) ++ done) (cycleClosed.append closed)
        fun start begins => List.mem_append_right _ (starts start begins)
      have cycleApart : ∀ id ∈ source :: front, id ∉ done := by
        intro id inside also
        have walked : id ∈ source :: walk pairing.pairs source := by
          rw [returns, ← List.cons_append]
          exact List.mem_append_left _ inside
        exact settled.1 ((closed.mem_iff_first (fun pair next => neighbours_walk next) id
          walked).1 also)
      rw [cycle]
      refine ⟨(source :: front) ++ names, cycleClosed.append namesClosed, ?_, ?_, ?_⟩
      · intro id inside also
        rcases List.mem_append.1 inside with inCycle | inNames
        · exact cycleApart id inCycle also
        · exact apart id inNames (List.mem_append_right _ also)
      · apply Shifts.append avoids (shifts_cycle one avoids returns) shifts namesClosed
        intro id inNames inCycle
        exact apart id inNames (List.mem_append_left _ inCycle)
      · intro other inSources
        rcases List.mem_cons.1 inSources with rfl | later
        · exact Or.inr (Or.inl (by simp))
        · rcases covered other later with inside | inside | fixed
          · rcases List.mem_append.1 inside with inCycle | inDone
            · exact Or.inr (Or.inl (List.mem_append_left _ inCycle))
            · exact Or.inl inDone
          · exact Or.inr (Or.inl (List.mem_append_right _ inside))
          · exact Or.inr (Or.inr fixed)

/-- Running the copies of a renaming gives every target what its source held before. -/
theorem performAll_instructions (one : OneToOne pairing.pairs)
    (avoids : Avoids pairing.pairs scratch) (memory : Memory) (position : Int)
    (exist : ∀ source target, (source, target) ∈ pairing.pairs →
      ∃ history, memory.get? source = some history) :
    ∃ after, memory.performAll position (pairing.instructions scratch) = .ok after ∧
      (∀ source target, (source, target) ∈ pairing.pairs →
        after.get? target = memory.get? source) ∧
      ∀ id, id ≠ scratch → (∀ source, (source, id) ∉ pairing.pairs) →
        after.get? id = memory.get? id := by
  have distinct : pairing.chainStarts.Nodup := one.1.filter _
  obtain ⟨chainsClosed, chainsShift⟩ := shifts_chains one avoids pairing.chainStarts distinct
    fun start member => (mem_chainStarts.1 member).2
  have sources : ∀ source ∈ pairing.pairs.map Prod.fst, ∃ target,
      (source, target) ∈ pairing.pairs := by
    intro source member
    obtain ⟨pair, inside, rfl⟩ := List.mem_map.1 member
    exact ⟨pair.2, inside⟩
  obtain ⟨names, namesClosed, apart, shifts, covered⟩ := shifts_cycles one avoids
    (pairing.pairs.map Prod.fst) sources _ chainsClosed
    fun start member => List.mem_flatMap.2 ⟨start, member, by simp⟩
  obtain ⟨after, runs, moved, kept⟩ := chainsShift.append avoids shifts namesClosed apart memory
    position fun source target member _ => exist source target member
  refine ⟨after, ?_, ?_, ?_⟩
  · rw [← runs, instructions, List.flatMap_map, ← List.flatMap_def]
    rfl
  · intro source target member
    by_cases inside : target ∈ (pairing.chainStarts.flatMap fun start =>
        start :: walk pairing.pairs start) ++ names
    · exact moved source target member inside
    · have outside : source ∉ (pairing.chainStarts.flatMap fun start =>
          start :: walk pairing.pairs start) ++ names :=
        fun also => inside (((chainsClosed.append namesClosed) source target member).1 also)
      rw [List.mem_append, not_or] at outside
      have fixed := (covered source (List.mem_map.2 ⟨_, member, rfl⟩)).resolve_left outside.1
      have same := one.image_unique member (fixed.resolve_left outside.2)
      rw [kept target (avoids source target member).2 fun also => absurd also inside, same]
  · intro id other untouched
    exact kept id other fun _ => untouched

end TaggedRegex.Renaming
