import TaggedRegex.Proofs.Guarded.Pairing
import TaggedRegex.Proofs.History.Scratch

set_option autoImplicit false

/-!
Renamings that are made by inserting pairs. Whatever pairs are inserted, the copies are found, they
run, and every target ends up with what its source held before. The scratch history is used exactly
when some names lie on a cycle, and is left empty then.
-/

namespace TaggedRegex

namespace Renaming

/-- Inserts pairs one after the other. One that clashes changes nothing. -/
def insertAll (pairing : Renaming) : List (HistoryId × HistoryId) → Renaming
  | [] => pairing
  | (source, target) :: rest =>
      match pairing.insert source target with
      | .error _ => pairing.insertAll rest
      | .ok (_, pairing) => pairing.insertAll rest

theorem OneToOne.empty : OneToOne Renaming.empty.pairs := ⟨List.nodup_nil, List.nodup_nil⟩

theorem OneToOne.insertAll {pairing : Renaming} (one : OneToOne pairing.pairs)
    (inserts : List (HistoryId × HistoryId)) : OneToOne (pairing.insertAll inserts).pairs := by
  induction inserts generalizing pairing with
  | nil => exact one
  | cons first rest ih =>
    obtain ⟨source, target⟩ := first
    rw [Renaming.insertAll]
    cases inserted : pairing.insert source target with
    | error clash => exact ih one
    | ok result => exact ih (Configuration.insert_eq_ok inserted one).1

/-- Some names lie on a cycle. -/
def HasCycle (pairing : Renaming) : Prop := ∃ first rest, pairing.IsCycle first rest

/-! ### When the scratch history is written -/

variable {pairing : Renaming} {scratch : HistoryId}

theorem written_of_mem_copies {names : List HistoryId} {instruction : Instruction}
    (member : instruction ∈ copies names) : instruction.written ∈ names.tail := by
  rw [copies, List.mem_reverse, List.mem_map] at member
  obtain ⟨pair, inside, rfl⟩ := member
  exact (List.of_mem_zip inside).2

/-- The copies of the chains write targets only. -/
theorem scratch_ne_written_of_mem_chains (avoids : Avoids pairing.pairs scratch)
    {starts : List HistoryId} {instruction : Instruction}
    (member : instruction ∈ (starts.map pairing.chainFrom).flatMap copies) :
    scratch ≠ instruction.written := by
  obtain ⟨names, chain, inside⟩ := List.mem_flatMap.1 member
  obtain ⟨start, -, rfl⟩ := List.mem_map.1 chain
  obtain ⟨source, paired⟩ := exists_mem_of_mem_walk (written_of_mem_copies inside)
  exact (avoids source _ paired).2.symm

theorem cyclesInstructions_of_settled {sources done : List HistoryId}
    (settled : ∀ source ∈ sources, source ∈ done ∨ pairing.image? source = some source) :
    pairing.cyclesInstructions scratch sources done = [] := by
  induction sources with
  | nil => rfl
  | cons source rest ih =>
    rw [cyclesInstructions, if_pos (settled source (List.mem_cons_self ..))]
    exact ih fun other member => settled other (List.mem_cons_of_mem source member)

theorem exists_cycleCopies_eq (scratch : HistoryId) {names : List HistoryId}
    (nonempty : names ≠ []) : ∃ front, cycleCopies scratch names = front ++ [.reset scratch] := by
  obtain ⟨first, rest, rfl⟩ := List.exists_cons_of_ne_nil nonempty
  obtain ⟨last, ends⟩ : ∃ last, (first :: rest).getLast? = some last := ⟨_, rfl⟩
  refine ⟨.copy scratch last :: copies (first :: rest) ++ [.copy first scratch], ?_⟩
  simp only [cycleCopies, ends, List.append_assoc, List.cons_append, List.nil_append]

/-- As soon as a source is left for the cycles, the scratch history is emptied last. -/
theorem exists_cyclesInstructions_eq (scratch : HistoryId) {sources done : List HistoryId}
    (isSource : ∀ source ∈ sources, ∃ target, pairing.image? source = some target)
    (left : ∃ source ∈ sources, ¬ (source ∈ done ∨ pairing.image? source = some source)) :
    ∃ front, pairing.cyclesInstructions scratch sources done = front ++ [.reset scratch] := by
  induction sources generalizing done with
  | nil =>
    obtain ⟨source, member, -⟩ := left
    cases member
  | cons source rest ih =>
    have restSource := fun other member => isSource other (List.mem_cons_of_mem source member)
    rw [cyclesInstructions]
    by_cases settled : source ∈ done ∨ pairing.image? source = some source
    · rw [if_pos settled]
      obtain ⟨other, member, unsettled⟩ := left
      rcases List.mem_cons.1 member with rfl | later
      · exact absurd settled unsettled
      · exact ih restSource ⟨other, later, unsettled⟩
    · rw [if_neg settled]
      dsimp only
      by_cases more : ∃ other ∈ rest, ¬ (other ∈ (pairing.chainFrom source).dropLast ++ done ∨
          pairing.image? other = some other)
      · obtain ⟨front, split⟩ := ih restSource more
        exact ⟨_, by rw [split, ← List.append_assoc]⟩
      · have none : pairing.cyclesInstructions scratch rest
            ((pairing.chainFrom source).dropLast ++ done) = [] :=
          cyclesInstructions_of_settled
            fun other member => not_not.1 fun unsettled => more ⟨other, member, unsettled⟩
        have nonempty : (pairing.chainFrom source).dropLast ≠ [] := by
          obtain ⟨target, image⟩ := isSource source (List.mem_cons_self ..)
          rw [chainFrom, walk_eq_cons image]
          exact List.cons_ne_nil _ _
        rw [none, List.append_nil]
        exact exists_cycleCopies_eq scratch nonempty

/-- The names of a cycle are connected to no others. -/
theorem IsCycle.closed (one : OneToOne pairing.pairs) {first : HistoryId} {rest : List HistoryId}
    (cycle : pairing.IsCycle first rest) : Closed pairing.pairs (first :: rest) := by
  have same : ∀ id, id ∈ rest ++ [first] ↔ id ∈ first :: rest := by
    intro id
    rw [List.mem_append, List.mem_singleton, List.mem_cons, or_comm]
  intro a b member
  constructor
  · intro inside
    obtain ⟨last, ends, split⟩ := neighbours_concat first first rest
    have next : ∃ next, (a, next) ∈ neighbours first (rest ++ [first]) := by
      rcases exists_after inside with isLast | ⟨next, found⟩
      · obtain rfl := Option.some.inj (ends.symm.trans isLast)
        exact ⟨first, by rw [split]; exact List.mem_append_right _ (List.mem_singleton_self _)⟩
      · exact ⟨next, by rw [split]; exact List.mem_append_left _ found⟩
    obtain ⟨next, found⟩ := next
    rw [one.image_unique member (cycle.paired _ found)]
    exact (same next).1 (mem_of_mem_neighbours found).2
  · intro inside
    obtain ⟨before, found⟩ := exists_before first ((same b).2 inside)
    rw [one.preimage_unique member (cycle.paired _ found)]
    rcases List.mem_cons.1 (mem_of_mem_neighbours found).1 with rfl | later
    · exact List.mem_cons_self ..
    · exact (same before).1 later

/-- No chain meets a cycle: what lies on a cycle is an image. -/
theorem IsCycle.not_mem_chained (one : OneToOne pairing.pairs) {first : HistoryId}
    {rest : List HistoryId} (cycle : pairing.IsCycle first rest) : first ∉ pairing.chained := by
  intro inside
  obtain ⟨chain, member, onChain⟩ := List.mem_flatten.1 inside
  obtain ⟨start, begins, rfl⟩ := List.mem_map.1 member
  have onCycle : start ∈ first :: rest :=
    ((cycle.closed one).mem_iff_first (fun pair next => neighbours_walk next) first onChain).1
      (List.mem_cons_self ..)
  have again : start ∈ rest ++ [first] := by
    rw [List.mem_append, List.mem_singleton, or_comm]
    exact List.mem_cons.1 onCycle
  obtain ⟨before, found⟩ := exists_before first again
  exact (mem_chainStarts.1 begins).2 before (cycle.paired _ found)

/-- A source is left for the cycles if and only if there is a cycle. -/
theorem exists_unsettled_iff_hasCycle (one : OneToOne pairing.pairs) :
    (∃ source ∈ pairing.pairs.map Prod.fst,
      ¬ (source ∈ pairing.chained ∨ pairing.image? source = some source)) ↔ pairing.HasCycle := by
  constructor
  · rintro ⟨_, member, unsettled⟩
    obtain ⟨⟨source, target⟩, paired, rfl⟩ := List.mem_map.1 member
    obtain ⟨rest, -, cycle, -⟩ := isCycle_of_unsettled one (closed_chained one)
      (fun start begins => mem_chained_of_start begins) paired unsettled
    exact ⟨source, rest, cycle⟩
  · rintro ⟨first, names, cycle⟩
    obtain ⟨second, rest, rfl⟩ := List.exists_cons_of_ne_nil cycle.more
    have begins : (first, second) ∈ pairing.pairs := cycle.paired (first, second) (by simp)
    refine ⟨first, List.mem_map.2 ⟨_, begins, rfl⟩, ?_⟩
    rintro (inside | fixed)
    · exact cycle.not_mem_chained one inside
    · have distinct := cycle.distinct
      rw [one.image_unique begins (mem_of_lookup fixed)] at distinct
      exact (List.nodup_cons.1 distinct).1 (List.mem_cons_self ..)

/-- Copies whose last instruction empties the scratch history leave it empty. -/
theorem get?_scratch_of_reset {memory after : Memory} {position : Int} {front : List Instruction}
    (runs : memory.performAll position (front ++ [.reset scratch]) = .ok after) :
    after.get? scratch = some .blank := by
  rw [Memory.performAll_append] at runs
  cases before : memory.performAll position front with
  | error fault =>
    rw [before] at runs
    cases runs
  | ok middle =>
    rw [before] at runs
    obtain rfl := Except.ok.inj runs
    rw [Memory.reset, Memory.get?_put, if_pos rfl]

/-- The scratch history is emptied at the end if there is a cycle, and not touched otherwise. -/
theorem get?_scratch (one : OneToOne pairing.pairs) (avoids : Avoids pairing.pairs scratch)
    {memory after : Memory} {position : Int}
    (runs : memory.performAll position (pairing.instructions scratch) = .ok after) :
    (pairing.HasCycle → after.get? scratch = some .blank) ∧
      (¬ pairing.HasCycle → after.get? scratch = memory.get? scratch) := by
  rw [← exists_unsettled_iff_hasCycle one]
  have split : pairing.instructions scratch =
      (pairing.chainStarts.map pairing.chainFrom).flatMap copies ++
        pairing.cyclesInstructions scratch (pairing.pairs.map Prod.fst) pairing.chained := rfl
  rw [split] at runs
  constructor
  · intro left
    have images : ∀ source ∈ pairing.pairs.map Prod.fst,
        ∃ target, pairing.image? source = some target := by
      intro source member
      obtain ⟨pair, inside, rfl⟩ := List.mem_map.1 member
      exact ⟨pair.2, one.lookup_eq_some inside⟩
    obtain ⟨front, last⟩ := exists_cyclesInstructions_eq scratch images left
    rw [last, ← List.append_assoc] at runs
    exact get?_scratch_of_reset runs
  · intro none
    rw [cyclesInstructions_of_settled
      fun source member => not_not.1 fun unsettled => none ⟨source, member, unsettled⟩,
      List.append_nil] at runs
    exact Memory.get?_of_performAll runs
      fun instruction member => scratch_ne_written_of_mem_chains avoids member

end Renaming

namespace Pairing

open Renaming (OneToOne)

/-- Inserts pairs one after the other. One that clashes changes nothing. -/
def insertAll (pairing : Pairing) : List (HistoryId × HistoryId) → Except Breach Pairing
  | [] => .ok pairing
  | (source, target) :: rest =>
      match pairing.insert source target with
      | .error breach => .error breach
      | .ok (.error _) => pairing.insertAll rest
      | .ok (.ok (_, pairing)) => pairing.insertAll rest

theorem insertAll_ofRenaming (inserts : List (HistoryId × HistoryId)) {plain : Renaming}
    (one : OneToOne plain.pairs) :
    (ofRenaming plain).insertAll inserts = .ok (ofRenaming (plain.insertAll inserts)) := by
  induction inserts generalizing plain with
  | nil => rfl
  | cons first rest ih =>
    obtain ⟨source, target⟩ := first
    rw [insertAll, insert_ofRenaming one, Renaming.insertAll]
    cases inserted : plain.insert source target with
    | error clash => exact ih one
    | ok result => exact ih (Configuration.insert_eq_ok inserted one).1

/-- The copies of a renaming take place as if at once, whatever pairs it was made from, and in
whatever order. They are found without a breach. When they have run, every target is what its
source was, the scratch history is empty if names lie on a cycle and as it was if none do, and
every other history is as it was. -/
theorem copies_simultaneous (inserts : List (HistoryId × HistoryId)) (scratch : HistoryId)
    (avoids : Renaming.Avoids (Renaming.empty.insertAll inserts).pairs scratch)
    (position : Int) (memory : Memory)
    (initialised : ∀ source target, (source, target) ∈ (Renaming.empty.insertAll inserts).pairs →
      ∃ history, memory.get? source = some history) :
    ∃ pairing instructions after,
      empty.insertAll inserts = .ok pairing ∧
      pairing.instructions scratch = .ok instructions ∧
      instructions = (Renaming.empty.insertAll inserts).instructions scratch ∧
      memory.performAll position instructions = .ok after ∧
      (∀ source target, (source, target) ∈ (Renaming.empty.insertAll inserts).pairs →
        after.get? target = memory.get? source) ∧
      ((Renaming.empty.insertAll inserts).HasCycle → after.get? scratch = some .blank) ∧
      (¬ (Renaming.empty.insertAll inserts).HasCycle →
        after.get? scratch = memory.get? scratch) ∧
      ∀ id, id ≠ scratch →
        (∀ source, (source, id) ∉ (Renaming.empty.insertAll inserts).pairs) →
        after.get? id = memory.get? id := by
  have one := OneToOne.empty.insertAll inserts
  obtain ⟨after, runs, moved, kept⟩ :=
    Renaming.performAll_instructions one avoids memory position initialised
  obtain ⟨emptied, untouched⟩ := Renaming.get?_scratch one avoids runs
  exact ⟨_, _, after, insertAll_ofRenaming inserts OneToOne.empty, instructions_eq one scratch, rfl,
    runs, moved, emptied, untouched, kept⟩

/-- A chain, a cycle, a name that is its own image, and a pair that clashes. -/
theorem copies_simultaneous_mixed :
    ∃ pairing instructions after,
      empty.insertAll [(⟨1⟩, ⟨2⟩), (⟨4⟩, ⟨5⟩), (⟨2⟩, ⟨3⟩), (⟨1⟩, ⟨7⟩), (⟨5⟩, ⟨4⟩), (⟨6⟩, ⟨6⟩)] =
        .ok pairing ∧
      pairing.instructions ⟨9⟩ = .ok instructions ∧
      Memory.performAll ⟨[(⟨1⟩, ⟨some 1, [1]⟩), (⟨2⟩, ⟨some 2, [2, 0]⟩), (⟨4⟩, ⟨some 4, []⟩),
        (⟨5⟩, .blank), (⟨6⟩, .blank)]⟩ 3 instructions = .ok after ∧
      after.get? ⟨3⟩ = some ⟨some 2, [2, 0]⟩ ∧ after.get? ⟨5⟩ = some ⟨some 4, []⟩ ∧
      after.get? ⟨9⟩ = some .blank ∧ after.get? ⟨7⟩ = none := by
  have pairs : (Renaming.empty.insertAll
      [(⟨1⟩, ⟨2⟩), (⟨4⟩, ⟨5⟩), (⟨2⟩, ⟨3⟩), (⟨1⟩, ⟨7⟩), (⟨5⟩, ⟨4⟩), (⟨6⟩, ⟨6⟩)]).pairs =
      [(⟨1⟩, ⟨2⟩), (⟨4⟩, ⟨5⟩), (⟨2⟩, ⟨3⟩), (⟨5⟩, ⟨4⟩), (⟨6⟩, ⟨6⟩)] := by decide
  let memory : Memory := ⟨[(⟨1⟩, ⟨some 1, [1]⟩), (⟨2⟩, ⟨some 2, [2, 0]⟩), (⟨4⟩, ⟨some 4, []⟩),
    (⟨5⟩, .blank), (⟨6⟩, .blank)]⟩
  have avoids : ∀ pair ∈ [((⟨1⟩, ⟨2⟩) : HistoryId × HistoryId), (⟨4⟩, ⟨5⟩), (⟨2⟩, ⟨3⟩), (⟨5⟩, ⟨4⟩),
      (⟨6⟩, ⟨6⟩)], pair.1 ≠ ⟨9⟩ ∧ pair.2 ≠ ⟨9⟩ := by decide
  have exist : ∀ pair ∈ [((⟨1⟩, ⟨2⟩) : HistoryId × HistoryId), (⟨4⟩, ⟨5⟩), (⟨2⟩, ⟨3⟩), (⟨5⟩, ⟨4⟩),
      (⟨6⟩, ⟨6⟩)], (memory.get? pair.1).isSome = true := by decide
  obtain ⟨pairing, instructions, after, inserted, found, -, runs, moved, emptied, -, kept⟩ :=
    copies_simultaneous
      [(⟨1⟩, ⟨2⟩), (⟨4⟩, ⟨5⟩), (⟨2⟩, ⟨3⟩), (⟨1⟩, ⟨7⟩), (⟨5⟩, ⟨4⟩), (⟨6⟩, ⟨6⟩)] ⟨9⟩
      (fun source target member => avoids (source, target) (pairs ▸ member)) 3 memory
      (fun source target member =>
        Option.isSome_iff_exists.1 (exist (source, target) (pairs ▸ member)))
  have cycle : (Renaming.empty.insertAll
      [(⟨1⟩, ⟨2⟩), (⟨4⟩, ⟨5⟩), (⟨2⟩, ⟨3⟩), (⟨1⟩, ⟨7⟩), (⟨5⟩, ⟨4⟩), (⟨6⟩, ⟨6⟩)]).HasCycle :=
    ⟨⟨4⟩, [⟨5⟩], by decide, by decide, by decide⟩
  refine ⟨pairing, instructions, after, inserted, found, runs, ?_, ?_, emptied cycle, ?_⟩
  · exact moved ⟨2⟩ ⟨3⟩ (by decide)
  · exact moved ⟨4⟩ ⟨5⟩ (by decide)
  · exact kept ⟨7⟩ (by decide) (by rw [pairs]; simp)

end Pairing

end TaggedRegex
