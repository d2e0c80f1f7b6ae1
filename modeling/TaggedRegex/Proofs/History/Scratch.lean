import TaggedRegex.Proofs.History.ParallelCopies

set_option autoImplicit false

/-!
What the copies of a renaming have to do with each name. Each of them copies the source of a pair to
its target, except where a cycle is broken at the scratch history.
-/

namespace TaggedRegex.Renaming

variable {pairing : Renaming} {scratch : HistoryId}

/-- Two names or more, each the image of the one before, and the first that of the last. -/
structure IsCycle (pairing : Renaming) (first : HistoryId) (rest : List HistoryId) : Prop where
  more : rest ≠ []
  distinct : (first :: rest).Nodup
  paired : ∀ pair ∈ neighbours first (rest ++ [first]), pair ∈ pairing.pairs

/-- The instruction is one of the three among the copies around a cycle that use the scratch
history: the last value goes there first, and from there to the first name at the end. -/
def BreaksCycle (pairing : Renaming) (scratch : HistoryId) (instructions : List Instruction)
    (instruction : Instruction) : Prop :=
  ∃ first rest last, pairing.IsCycle first rest ∧ (first :: rest).getLast? = some last ∧
    cycleCopies scratch (first :: rest) <:+: instructions ∧
    instruction ∈ [.copy scratch last, .copy first scratch, .reset scratch]

theorem IsCycle.last_paired {first last : HistoryId} {rest : List HistoryId}
    (cycle : pairing.IsCycle first rest) (ends : (first :: rest).getLast? = some last) :
    (last, first) ∈ pairing.pairs := by
  obtain ⟨other, ends', split⟩ := neighbours_concat first first rest
  obtain rfl := Option.some.inj (ends.symm.trans ends')
  exact cycle.paired _ (by rw [split]; exact List.mem_append_right _ (List.mem_singleton_self _))

/-- A source that is not its own image and outside a closed set that holds all beginnings of chains
lies on a cycle, which is the walk from there. -/
theorem isCycle_of_unsettled (one : OneToOne pairing.pairs) {done : List HistoryId}
    (closed : Closed pairing.pairs done) (starts : ∀ start ∈ pairing.chainStarts, start ∈ done)
    {source target : HistoryId} (member : (source, target) ∈ pairing.pairs)
    (unsettled : ¬ (source ∈ done ∨ pairing.image? source = some source)) :
    ∃ rest, (pairing.chainFrom source).dropLast = source :: rest ∧ pairing.IsCycle source rest ∧
      Closed pairing.pairs (source :: rest) := by
  rw [not_or] at unsettled
  obtain ⟨rest, returns⟩ := walk_returns one closed
    (fun start next image first => starts start (mem_chainStarts.2 ⟨⟨next, image⟩, first⟩))
    member unsettled.1
  refine ⟨rest, ?_, ⟨?_, ?_, ?_⟩, closed_cycle one returns⟩
  · rw [chainFrom, returns, ← List.cons_append, List.dropLast_concat]
  · rintro rfl
    rw [walk_eq_cons (one.lookup_eq_some member)] at returns
    have fixed : target = source := (List.cons.inj returns).1
    rw [fixed] at member
    exact unsettled.2 (one.lookup_eq_some member)
  · have distinct : (rest ++ [source]).Nodup := returns ▸ one.nodup_walk source
    exact List.nodup_append_comm.1 distinct
  · exact fun pair inside => neighbours_walk (returns ▸ inside)

/-- The second half of the instructions is made of the copies around cycles. -/
theorem cyclesInstructions_eq (one : OneToOne pairing.pairs) (scratch : HistoryId)
    (sources : List HistoryId)
    (isSource : ∀ source ∈ sources, ∃ target, (source, target) ∈ pairing.pairs)
    {done : List HistoryId} (closed : Closed pairing.pairs done)
    (starts : ∀ start ∈ pairing.chainStarts, start ∈ done) :
    ∃ cycles : List (HistoryId × List HistoryId),
      (∀ cycle ∈ cycles, pairing.IsCycle cycle.1 cycle.2) ∧
      pairing.cyclesInstructions scratch sources done =
        cycles.flatMap fun cycle => cycleCopies scratch (cycle.1 :: cycle.2) := by
  induction sources generalizing done with
  | nil => exact ⟨[], fun _ member => absurd member List.not_mem_nil, rfl⟩
  | cons source sources ih =>
    have restSource := fun other member => isSource other (List.mem_cons_of_mem source member)
    rw [cyclesInstructions]
    by_cases settled : source ∈ done ∨ pairing.image? source = some source
    · rw [if_pos settled]
      exact ih restSource closed starts
    · rw [if_neg settled]
      obtain ⟨target, member⟩ := isSource source (List.mem_cons_self ..)
      obtain ⟨rest, walked, cycle, cycleClosed⟩ :=
        isCycle_of_unsettled one closed starts member settled
      rw [walked]
      obtain ⟨cycles, each, split⟩ := ih restSource (cycleClosed.append closed)
        fun start begins => List.mem_append_right _ (starts start begins)
      refine ⟨(source, rest) :: cycles, List.forall_mem_cons.2 ⟨cycle, each⟩, ?_⟩
      rw [List.flatMap_cons, ← split]

theorem mem_copies {first : HistoryId} {rest : List HistoryId} {instruction : Instruction} :
    instruction ∈ copies (first :: rest) ↔
      ∃ pair ∈ neighbours first rest, .copy pair.2 pair.1 = instruction := by
  rw [copies, List.mem_reverse, List.mem_map]
  rfl

theorem mem_cycleCopies_cases {first last : HistoryId} {rest : List HistoryId}
    (cycle : pairing.IsCycle first rest) (ends : (first :: rest).getLast? = some last)
    {instruction : Instruction} (member : instruction ∈ cycleCopies scratch (first :: rest)) :
    (∃ source target, (source, target) ∈ pairing.pairs ∧ instruction = .copy target source) ∨
      instruction ∈ [.copy scratch last, .copy first scratch, .reset scratch] := by
  have copied : cycleCopies scratch (first :: rest) =
      .copy scratch last :: copies (first :: rest) ++ [.copy first scratch, .reset scratch] := by
    simp only [cycleCopies, ends]
  rw [copied] at member
  simp only [List.cons_append, List.mem_cons, List.mem_append] at member ⊢
  rcases member with parked | between | back
  · exact Or.inr (Or.inl parked)
  · left
    obtain ⟨pair, next, rfl⟩ := mem_copies.1 between
    obtain ⟨_, -, closing⟩ := neighbours_concat first first rest
    refine ⟨pair.1, pair.2, cycle.paired pair ?_, rfl⟩
    rw [closing]
    exact List.mem_append_left _ next
  · exact Or.inr (Or.inr back)

/-- Every instruction copies the source of a pair to its target, or breaks a cycle. -/
theorem mem_instructions_cases (one : OneToOne pairing.pairs) {instruction : Instruction}
    (member : instruction ∈ pairing.instructions scratch) :
    (∃ source target, (source, target) ∈ pairing.pairs ∧ instruction = .copy target source) ∨
      pairing.BreaksCycle scratch (pairing.instructions scratch) instruction := by
  have sources : ∀ source ∈ pairing.pairs.map Prod.fst, ∃ target,
      (source, target) ∈ pairing.pairs := by
    intro source inside
    obtain ⟨pair, paired, rfl⟩ := List.mem_map.1 inside
    exact ⟨pair.2, paired⟩
  obtain ⟨cycles, each, split⟩ := cyclesInstructions_eq one scratch _ sources
    (closed_chained one) fun start begins => mem_chained_of_start begins
  have whole : pairing.instructions scratch =
      (pairing.chainStarts.map pairing.chainFrom).flatMap copies ++
        cycles.flatMap fun cycle => cycleCopies scratch (cycle.1 :: cycle.2) := by
    rw [← split]
    rfl
  rw [whole] at member
  rcases List.mem_append.1 member with onChain | onCycle
  · left
    obtain ⟨names, chain, inside⟩ := List.mem_flatMap.1 onChain
    obtain ⟨start, -, rfl⟩ := List.mem_map.1 chain
    obtain ⟨pair, next, rfl⟩ := mem_copies.1 inside
    exact ⟨pair.1, pair.2, neighbours_walk next, rfl⟩
  · obtain ⟨⟨first, rest⟩, inCycles, inside⟩ := List.mem_flatMap.1 onCycle
    have cycle : pairing.IsCycle first rest := each _ inCycles
    have onCycles : cycleCopies scratch (first :: rest) <:+:
        cycles.flatMap fun cycle => cycleCopies scratch (cycle.1 :: cycle.2) := by
      rw [List.flatMap_def]
      exact List.infix_of_mem_flatten (List.mem_map.2 ⟨_, inCycles, rfl⟩)
    obtain ⟨last, ends⟩ : ∃ last, (first :: rest).getLast? = some last := ⟨_, rfl⟩
    refine (mem_cycleCopies_cases cycle ends inside).imp_right fun found => ?_
    refine ⟨first, rest, last, cycle, ends, ?_, found⟩
    rw [whole]
    exact onCycles.trans (List.suffix_append _ _).isInfix

/-- The copies read and write names of the renaming and the scratch history. -/
theorem mentioned_of_mem_instructions (one : OneToOne pairing.pairs) {instruction : Instruction}
    (member : instruction ∈ pairing.instructions scratch) {id : HistoryId}
    (inside : id ∈ instruction.mentioned) :
    id = scratch ∨ (∃ target, (id, target) ∈ pairing.pairs) ∨
      ∃ source, (source, id) ∈ pairing.pairs := by
  rcases mem_instructions_cases one member with ⟨source, target, pair, rfl⟩ |
    ⟨first, rest, last, cycle, ends, -, breaks⟩
  · simp only [Instruction.mentioned, List.mem_cons, List.not_mem_nil, or_false] at inside
    rcases inside with rfl | rfl
    · exact Or.inr (Or.inr ⟨source, pair⟩)
    · exact Or.inr (Or.inl ⟨target, pair⟩)
  · have pair := cycle.last_paired ends
    simp only [List.mem_cons, List.not_mem_nil, or_false] at breaks
    rcases breaks with rfl | rfl | rfl <;>
      simp only [Instruction.mentioned, List.mem_cons, List.not_mem_nil, or_false] at inside
    · rcases inside with rfl | rfl
      · exact Or.inl rfl
      · exact Or.inr (Or.inl ⟨first, pair⟩)
    · rcases inside with rfl | rfl
      · exact Or.inr (Or.inr ⟨last, pair⟩)
      · exact Or.inl rfl
    · exact Or.inl inside

/-- They write images and the scratch history. -/
theorem written_of_mem_instructions (one : OneToOne pairing.pairs) {instruction : Instruction}
    (member : instruction ∈ pairing.instructions scratch) :
    instruction.written = scratch ∨ ∃ source, (source, instruction.written) ∈ pairing.pairs := by
  rcases mem_instructions_cases one member with ⟨source, target, pair, rfl⟩ |
    ⟨first, rest, last, cycle, ends, -, breaks⟩
  · exact Or.inr ⟨source, pair⟩
  · simp only [List.mem_cons, List.not_mem_nil, or_false] at breaks
    rcases breaks with rfl | rfl | rfl
    · exact Or.inl rfl
    · exact Or.inr ⟨last, cycle.last_paired ends⟩
    · exact Or.inl rfl

end TaggedRegex.Renaming
