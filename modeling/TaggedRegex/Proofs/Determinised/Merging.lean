import TaggedRegex.Matcher
import TaggedRegex.Proofs.Determinised.Advance
import TaggedRegex.Proofs.History.ParallelCopies

set_option autoImplicit false

/-!
Merging. A configuration that is replaced by a known one has its histories renamed, and the copies
that carry out the renaming make the histories of the known one bear the same trails.
-/

namespace TaggedRegex

variable {automaton : Automaton} {scratch : HistoryId}

namespace Configuration

/-- A pair joins a renaming only if the renaming stays one-to-one. -/
theorem insert_eq_ok {pairing after : Renaming} {source target : HistoryId} {new : Bool}
    (success : pairing.insert source target = .ok (new, after))
    (one : Renaming.OneToOne pairing.pairs) :
    Renaming.OneToOne after.pairs ∧
      ∀ pair, pair ∈ after.pairs ↔ pair ∈ pairing.pairs ∨ pair = (source, target) := by
  unfold Renaming.insert at success
  split at success
  · rename_i present
    obtain ⟨-, rfl⟩ : new = false ∧ pairing = after := by simpa [eq_comm] using success
    refine ⟨one, fun pair => ⟨Or.inl, ?_⟩⟩
    rintro (member | rfl)
    · exact member
    · exact present
  · split at success
    · cases success
    · cases success
    · rename_i noImage noPreimage
      obtain ⟨-, rfl⟩ : new = true ∧
          (⟨pairing.pairs ++ [(source, target)]⟩ : Renaming) = after := by
        simpa [eq_comm] using success
      have sourceNew : source ∉ pairing.pairs.map Prod.fst := by
        intro member
        rcases List.mem_map.1 member with ⟨⟨first, second⟩, pairMember, rfl⟩
        rw [Renaming.image?, one.lookup_eq_some pairMember] at noImage
        cases noImage
      have targetNew : target ∉ pairing.pairs.map Prod.snd := by
        intro member
        rcases List.mem_map.1 member with ⟨⟨first, second⟩, pairMember, rfl⟩
        rw [Renaming.preimage?, one.swap.lookup_eq_some (Renaming.mem_swap_iff.2 pairMember)]
          at noPreimage
        cases noPreimage
      have joined : ∀ {names : List HistoryId} {name : HistoryId}, names.Nodup → name ∉ names →
          (names ++ [name]).Nodup := by
        intro names name distinct fresh
        rw [List.nodup_append]
        refine ⟨distinct, by simp, ?_⟩
        intro first early second late same
        rw [same, List.mem_singleton.1 late] at early
        exact fresh early
      refine ⟨⟨?_, ?_⟩, fun pair => ?_⟩
      · rw [List.map_append]
        exact joined one.1 sourceNew
      · rw [List.map_append]
        exact joined one.2 targetNew
      · rw [List.mem_append, List.mem_singleton]

theorem renamingOfPairs?_eq_some {pairs : List (HistoryId × HistoryId)}
    {pairing after : Renaming} (success : renamingOfPairs? pairing pairs = some after)
    (one : Renaming.OneToOne pairing.pairs) :
    Renaming.OneToOne after.pairs ∧
      ∀ pair, pair ∈ after.pairs ↔ pair ∈ pairing.pairs ∨ pair ∈ pairs := by
  induction pairs generalizing pairing with
  | nil =>
    obtain rfl : pairing = after := by simpa [renamingOfPairs?] using success
    exact ⟨one, fun pair => by simp⟩
  | cons first rest ih =>
    obtain ⟨source, target⟩ := first
    rw [renamingOfPairs?] at success
    cases inserted : pairing.insert source target with
    | error clash =>
      rw [inserted] at success
      cases success
    | ok result =>
      obtain ⟨new, next⟩ := result
      rw [inserted] at success
      rcases insert_eq_ok inserted one with ⟨nextOne, nextMember⟩
      rcases ih success nextOne with ⟨afterOne, afterMember⟩
      refine ⟨afterOne, fun pair => ?_⟩
      rw [afterMember, nextMember, List.mem_cons, or_assoc]

/-- The pairs of a renaming are exactly the histories in corresponding slots of corresponding
threads. -/
theorem renamingOnto?_eq_some {source target : Configuration} {pairing : Renaming}
    (success : source.renamingOnto? target = some pairing) :
    Renaming.OneToOne pairing.pairs ∧
      ∀ pair, pair ∈ pairing.pairs ↔ pair ∈ source.historyPairs target := by
  have one : Renaming.OneToOne Renaming.empty.pairs := ⟨List.nodup_nil, List.nodup_nil⟩
  rcases renamingOfPairs?_eq_some success one with ⟨afterOne, afterMember⟩
  refine ⟨afterOne, fun pair => ?_⟩
  rw [afterMember]
  simp [Renaming.empty]

theorem exists_histories_of_mem_historyPairs {source target : Configuration}
    {first second : HistoryId} (member : (first, second) ∈ source.historyPairs target) :
    ∃ sourceThread ∈ source.threads, ∃ targetThread ∈ target.threads,
      first ∈ sourceThread.histories ∧ second ∈ targetThread.histories := by
  rcases List.mem_flatMap.1 member with ⟨⟨sourceThread, targetThread⟩, both, slots⟩
  have threads := List.of_mem_zip both
  have ids := List.of_mem_zip slots
  exact ⟨sourceThread, threads.1, targetThread, threads.2, ids.1, ids.2⟩

end Configuration

/-- What a memory holds for some threads it holds for others with the same states, if the histories
in corresponding slots are equal. -/
theorem Carries.rename {before after : Memory} {sources targets : List Thread}
    {walkers : List Walker} (carries : Carries automaton before sources walkers)
    (states : sources.map Thread.state = targets.map Thread.state)
    (sourceLength : ∀ thread ∈ sources, thread.histories.length = automaton.tags.length)
    (copied : ∀ pair ∈ sources.zip targets,
      ∀ slot ∈ pair.1.histories.zip pair.2.histories, after.get? slot.2 = before.get? slot.1) :
    Carries automaton after targets walkers := by
  induction carries generalizing targets with
  | nil =>
    obtain rfl : targets = [] := List.map_eq_nil_iff.1 states.symm
    exact List.Forall₂.nil
  | @cons source walker sources walkers both rest ih =>
    cases targets with
    | nil => cases states
    | cons target targets =>
      rw [List.map_cons, List.map_cons, List.cons.injEq] at states
      rw [List.zip_cons_cons] at copied
      apply List.Forall₂.cons
      · refine ⟨states.1.symm.trans both.1, ?_⟩
        intro i tag id tagAt idAt
        have inTags := (List.getElem?_eq_some_iff.1 tagAt).1
        have inSource : i < source.histories.length := by
          rw [sourceLength source (List.mem_cons_self ..)]
          exact inTags
        have sourceAt := List.getElem?_eq_getElem inSource
        have zipped : (source.histories[i], id) ∈ source.histories.zip target.histories := by
          apply List.mem_of_getElem? (i := i)
          rw [List.getElem?_zip_eq_some]
          exact ⟨sourceAt, idAt⟩
        have same := copied (source, target) (List.mem_cons_self ..) _ zipped
        exact (both.2 i tag _ tagAt sourceAt).of_get?_eq same
      · apply ih states.2 fun thread member => sourceLength thread (List.mem_cons_of_mem _ member)
        exact fun pair member => copied pair (List.mem_cons_of_mem _ member)

/-- If every slot has a history that exists, the source of every pair exists. -/
theorem Carries.exists_get? {memory : Memory} {threads : List Thread} {walkers : List Walker}
    (carries : Carries automaton memory threads walkers)
    (length : ∀ thread ∈ threads, thread.histories.length = automaton.tags.length) :
    ∀ thread ∈ threads, ∀ id ∈ thread.histories, ∃ history, memory.get? id = some history := by
  induction carries with
  | nil => exact fun thread member => absurd member List.not_mem_nil
  | @cons source walker sources walkers both rest ih =>
    intro thread member id idMember
    rcases List.mem_cons.1 member with rfl | later
    · rcases List.mem_iff_getElem?.1 idMember with ⟨i, idAt⟩
      have inside := (List.getElem?_eq_some_iff.1 idAt).1
      rw [length thread (List.mem_cons_self ..)] at inside
      exact (both.2 i _ id (List.getElem?_eq_getElem inside) idAt).exists_get?
    · exact ih (fun other otherMember => length other (List.mem_cons_of_mem _ otherMember))
        thread later id idMember

/-- The copies of the renaming onto a known configuration end where the known one stands. -/
theorem LeadsTo.merge {step : Step} {source : List Thread} {instructions : List Instruction}
    {candidate known : Configuration} {supply : Supply} {pairing : Renaming}
    (leads : LeadsTo automaton step source instructions candidate.threads)
    (candidateNamed : candidate.WellNamed automaton scratch supply)
    (knownNamed : known.WellNamed automaton scratch supply)
    (keys : known.key = candidate.key) (found : candidate.renamingOnto? known = some pairing) :
    LeadsTo automaton step source (instructions ++ pairing.instructions scratch)
      known.threads := by
  intro memory consumed walkers carries
  rcases leads memory consumed walkers carries with ⟨middle, runs, carried⟩
  rcases Configuration.renamingOnto?_eq_some found with ⟨one, members⟩
  have lengths : ∀ thread ∈ candidate.threads, thread.histories.length = automaton.tags.length :=
    fun thread member => (candidateNamed.named thread member).length
  have avoids : Renaming.Avoids pairing.pairs scratch := by
    intro first second member
    rcases Configuration.exists_histories_of_mem_historyPairs ((members _).1 member) with
      ⟨sourceThread, sourceMember, targetThread, targetMember, firstMember, secondMember⟩
    exact ⟨((candidateNamed.named _ sourceMember).issued _ firstMember).2,
      ((knownNamed.named _ targetMember).issued _ secondMember).2⟩
  have exist : ∀ first second, (first, second) ∈ pairing.pairs →
      ∃ history, middle.get? first = some history := by
    intro first second member
    rcases Configuration.exists_histories_of_mem_historyPairs ((members _).1 member) with
      ⟨sourceThread, sourceMember, -, -, firstMember, -⟩
    exact carried.exists_get? lengths sourceThread sourceMember first firstMember
  rcases Renaming.performAll_instructions one avoids middle ((consumed : Int) - 1) exist with
    ⟨final, copies, copied, -⟩
  refine ⟨final, (Memory.performAll_append_of_ok runs _).trans copies, ?_⟩
  apply carried.rename keys.symm lengths
  intro pair pairMember slot slotMember
  apply copied
  rw [members]
  exact List.mem_flatMap.2 ⟨pair, pairMember, slotMember⟩

namespace Registry

theorem findRenaming?_eq_some {registry : Registry} {candidate : Configuration} {index : Nat}
    {pairing : Renaming} (found : registry.findRenaming? candidate = some (index, pairing)) :
    ∃ known, registry.get? index = some known ∧ known.key = candidate.key ∧
      candidate.renamingOnto? known = some pairing := by
  rcases List.exists_of_findSome?_eq_some found with ⟨⟨known, place⟩, member, test⟩
  dsimp only at test
  split at test
  · rename_i keys
    rcases Option.map_eq_some_iff.1 test with ⟨pairs, onto, same⟩
    obtain ⟨rfl, rfl⟩ := Prod.mk.inj same
    refine ⟨known, ?_, keys, onto⟩
    have at_place := List.mem_zipIdx_iff_getElem?.1 member
    rw [get?, ← Array.getElem?_toList]
    exact at_place
  · cases test

/-- Registering keeps the configurations that were there. -/
theorem get?_register (registry : Registry) (configuration : Configuration) (index : Nat) :
    (registry.register configuration).2.get? index =
      if index = registry.configurations.size then some configuration
      else registry.get? index := by
  show (registry.configurations.push configuration)[index]? = _
  rw [Array.getElem?_push]
  rfl

end Registry

end TaggedRegex
