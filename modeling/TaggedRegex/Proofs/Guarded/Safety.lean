import TaggedRegex.Proofs.Guarded.Matcher
import TaggedRegex.Proofs.Matching.Learning
import TaggedRegex.Proofs.Matching.MergeInvariance

set_option autoImplicit false

/-!
Matching never breaks a condition that it relies upon. As long as there are names for the histories,
a guarded matcher gives the results of the matcher, whatever it has read before.
-/

namespace TaggedRegex

/-! ### Buckets -/

/-- The numbers of the configurations with a key, oldest first. -/
def Registry.indicesOf (registry : Registry) (key : List StateId) : List Nat :=
  (registry.configurations.toList.zipIdx.filter fun entry => entry.1.key = key).map Prod.snd

theorem lookup_addToBucket (key other : List StateId) (index : Nat)
    (buckets : List (List StateId × List Nat)) :
    ((addToBucket key index buckets).lookup other).getD [] =
      (buckets.lookup other).getD [] ++ if key = other then [index] else [] := by
  induction buckets with
  | nil =>
    rw [addToBucket]
    by_cases same : key = other
    · simp [same]
    · simp [List.lookup_cons, beq_eq_false_iff_ne.2 (Ne.symm same), same]
  | cons bucket rest ih =>
    obtain ⟨first, indices⟩ := bucket
    rw [addToBucket]
    by_cases here : first = key
    · rw [if_pos here]
      by_cases same : key = other
      · simp [here, same]
      · simp [List.lookup_cons, here, beq_eq_false_iff_ne.2 (Ne.symm same), same]
    · rw [if_neg here]
      by_cases found : other = first
      · simp [found, Ne.symm here]
      · simp [List.lookup_cons, beq_eq_false_iff_ne.2 found, ih]

theorem Registry.indicesOf_register (registry : Registry) (configuration : Configuration)
    (key : List StateId) :
    (registry.register configuration).2.indicesOf key = registry.indicesOf key ++
      if configuration.key = key then [registry.configurations.size] else [] := by
  rw [indicesOf, indicesOf, register, Array.toList_push, List.zipIdx_append, List.filter_append,
    List.map_append]
  by_cases same : configuration.key = key <;> simp [same]

namespace GuardedMatcher

/-- The work lists are empty, and the buckets hold what the registry holds. -/
structure Tidy (g : GuardedMatcher) : Prop where
  lists : g.lists = .empty
  buckets : ∀ key, (g.buckets.lookup key).getD [] = g.matcher.registry.indicesOf key

theorem Tidy.register {g : GuardedMatcher} (tidy : g.Tidy) (configuration : Configuration) :
    (g.register configuration).2.Tidy := by
  refine ⟨tidy.lists, fun key => ?_⟩
  show ((addToBucket configuration.key g.matcher.registry.configurations.size
    g.buckets).lookup key).getD [] = (g.matcher.registry.register configuration).2.indicesOf key
  rw [lookup_addToBucket, tidy.buckets, Registry.indicesOf_register]

/-! ### Locating configurations -/

/-- The configurations in a bucket are registered and have the candidate's key, so they are compared
with it without a breach. -/
theorem firstMappable?_eq {registry : Registry} {candidate : Configuration}
    (counts : ∀ index known, registry.get? index = some known → known.key = candidate.key →
      known.slotCounts = candidate.slotCounts)
    (entries : List (Configuration × Nat))
    (registered : ∀ entry ∈ entries, registry.get? entry.2 = some entry.1) :
    firstMappable? registry candidate
        ((entries.filter fun entry => entry.1.key = candidate.key).map Prod.snd) =
      .ok ((entries.findSome? fun (configuration, index) =>
        if configuration.key = candidate.key then
          (candidate.renamingOnto? configuration).map fun pairing => (index, pairing)
        else none).map fun found => (found.1, Pairing.ofRenaming found.2)) := by
  induction entries with
  | nil => rfl
  | cons entry rest ih =>
    obtain ⟨known, index⟩ := entry
    have next := ih fun other member => registered other (List.mem_cons_of_mem _ member)
    have here : registry.get? index = some known := registered _ (List.mem_cons_self ..)
    rw [List.findSome?_cons]
    by_cases keys : known.key = candidate.key
    · rw [List.filter_cons_of_pos (by simpa using keys), List.map_cons, firstMappable?, here]
      dsimp only
      rw [if_pos keys, Pairing.between_eq keys.symm (counts index known here keys).symm]
      cases candidate.renamingOnto? known with
      | none => exact next
      | some pairing => rfl
    · rw [List.filter_cons_of_neg (by simpa using keys)]
      dsimp only
      rw [if_neg keys]
      exact next

theorem findMappable?_eq {g : GuardedMatcher} (tidy : g.Tidy) {candidate : Configuration}
    (counts : ∀ index known, g.matcher.registry.get? index = some known →
      known.key = candidate.key → known.slotCounts = candidate.slotCounts) :
    g.findMappable? candidate = .ok ((g.matcher.registry.findRenaming? candidate).map
      fun found => (found.1, Pairing.ofRenaming found.2)) := by
  have searched : g.findMappable? candidate = firstMappable? g.matcher.registry candidate
      ((g.buckets.lookup candidate.key).getD []) := by
    unfold findMappable?
    cases g.buckets.lookup candidate.key <;> rfl
  rw [searched, tidy.buckets]
  apply firstMappable?_eq counts
  intro entry member
  rw [Registry.get?, ← Array.getElem?_toList]
  exact List.mem_zipIdx_iff_getElem?.1 member

/-- A configuration is located as the matcher does it, and everything stays in order. -/
theorem locate_eq {g : GuardedMatcher} (tidy : g.Tidy) {candidate : Configuration} {slots : Nat}
    (candidateLengths : ∀ thread ∈ candidate.threads, thread.histories.length = slots)
    (knownLengths : ∀ index known, g.matcher.registry.get? index = some known →
      ∀ thread ∈ known.threads, thread.histories.length = slots)
    {index : Nat} {copies : List Instruction} {located : Matcher}
    (locates : g.matcher.locate candidate = (index, copies, located)) :
    ∃ later, g.locate candidate = .ok (index, copies, later) ∧ later.matcher = located ∧
      later.Tidy := by
  have known : g.substitute? candidate =
      .ok ((if g.matcher.merge then g.matcher.registry.findRenaming? candidate else none).map
        fun found => (found.1, Pairing.ofRenaming found.2)) := by
    unfold substitute?
    split
    · apply findMappable?_eq tidy
      intro index known registered keys
      exact Configuration.slotCounts_eq_of_forall keys (knownLengths index known registered)
        candidateLengths
    · rfl
  unfold Matcher.locate at locates
  rw [locate, known]
  cases sought : if g.matcher.merge then g.matcher.registry.findRenaming? candidate else none with
  | none =>
    rw [sought] at locates
    obtain ⟨rfl, rfl, rfl⟩ := by simpa only [Prod.mk.injEq] using locates
    exact ⟨(g.register candidate).2, rfl, rfl, tidy.register candidate⟩
  | some found =>
    rw [sought] at locates
    obtain ⟨place, pairing⟩ := found
    obtain ⟨rfl, rfl, rfl⟩ := by simpa only [Prod.mk.injEq] using locates
    have listed : g.matcher.registry.findRenaming? candidate = some (place, pairing) := by
      split at sought
      · exact sought
      · cases sought
    obtain ⟨target, -, -, onto⟩ := Registry.findRenaming?_eq_some listed
    refine ⟨g, ?_, rfl, tidy⟩
    show ((Pairing.ofRenaming pairing).instructions g.matcher.scratch >>= _) = _
    rw [Pairing.instructions_eq (Configuration.renamingOnto?_eq_some onto).1]
    rfl

end GuardedMatcher

theorem Table.get_of_insert {table after : Table} {transition : Transition} {place : Nat}
    (success : table.insert transition = .ok (place, after)) :
    after.get place = .ok transition := by
  rw [get, getElem?_of_insert success]

theorem Table.get_of_find? {table : Table} {source : Nat} {c : Char} {place : Nat}
    (found : table.find? source c = some place) :
    ∃ transition, table.get place = .ok transition ∧ table.get? source c = some transition := by
  obtain ⟨transition, here, -⟩ := of_find?_eq_some found
  refine ⟨transition, ?_, ?_⟩
  · rw [get, here]
  · rw [get?, found]
    exact here

namespace GuardedMatcher

/-- What a guarded operation gives fits, and the matcher in it has become the one that the plain
operation gives; everything is in order. -/
structure Keeps {α β : Type} (fits : α → β → Prop) (outcome : α × GuardedMatcher)
    (plain : β × Matcher) : Prop where
  value : fits outcome.1 plain.1
  matcher : outcome.2.matcher = plain.2
  tidy : outcome.2.Tidy

theorem Tidy.keeps {g : GuardedMatcher} (tidy : g.Tidy) {α β : Type} {fits : α → β → Prop}
    {value : α} {plain : β} (fit : fits value plain) : Keeps fits (value, g) (plain, g.matcher) :=
  ⟨fit, rfl, tidy⟩

/-! ### Following an input -/

theorem compute_refines {g : GuardedMatcher} (tidy : g.Tidy) (consistent : g.matcher.Consistent)
    (source : Nat) (c : Char) (range : CharRange) :
    Refines (Keeps Eq) (g.compute source c range) (g.matcher.compute source c range) := by
  unfold compute Matcher.compute
  apply refines_guarded_bind
  intro configuration success
  have named := consistent.named source configuration (Registry.get?_of_get_eq_ok success)
  rw [tidy.lists, WorkLists.advance_eq]
  rcases Closure.advance_simulated (.char c) consistent.tagged named consistent.waiting
    (fun start => by cases start) with exhausted | ⟨reached, supply, advanced, le, effect⟩
  · rw [exhausted]
    exact .refuses _
  · rw [advanced]
    cases reached with
    | none => exact .gives ⟨rfl, rfl, rfl, tidy.buckets⟩
    | some pair =>
      obtain ⟨candidate, instructions⟩ := pair
      cases located : ({ g.matcher with supply } : Matcher).locate candidate with
      | mk target rest =>
        obtain ⟨copies, matcher⟩ := rest
        -- The candidate is located after the step, with the supply and the lists that it left.
        have begun : Tidy { g with matcher := { g.matcher with supply }, lists := .empty } :=
          ⟨rfl, tidy.buckets⟩
        obtain ⟨later, locates, rfl, laterTidy⟩ := locate_eq begun
          (fun thread member => (effect.1.named thread member).length)
          (fun index known registered thread member =>
            ((consistent.named index known registered).named thread member).length) located
        simp only [bind, Except.bind, guarded, Except.map, locates, located]
        cases inserted : later.matcher.table.insert
            ⟨source, range, target, instructions ++ copies⟩ with
        | error fault => exact .refuses fault
        | ok value =>
          simp only [Table.get_of_insert inserted]
          exact .gives ⟨rfl, rfl, laterTidy.lists, laterTidy.buckets⟩

theorem transition_refines {g : GuardedMatcher} (tidy : g.Tidy)
    (consistent : g.matcher.Consistent) (source : Nat) (c : Char) :
    Refines (Keeps Eq) (g.transition source c) (g.matcher.transition source c) := by
  unfold transition Matcher.transition
  cases found : g.matcher.table.find? source c with
  | some place =>
    obtain ⟨known, taken, kept⟩ := Table.get_of_find? found
    simp only [taken, kept]
    exact .gives (tidy.keeps rfl)
  | none =>
    have missing : g.matcher.table.get? source c = none := by
      rw [Table.get?, found]
      rfl
    rw [missing]
    cases g.matcher.alphabet.find? c with
    | none => exact .gives (tidy.keeps rfl)
    | some range =>
      dsimp only
      by_cases dead : (source, range) ∈ g.matcher.dead
      · rw [if_pos (List.contains_iff_mem.2 dead), if_pos dead]
        exact .gives (tidy.keeps rfl)
      · rw [if_neg (fun held => dead (List.contains_iff_mem.1 held)), if_neg dead]
        exact compute_refines tidy consistent source c range

/-- Following an input, both come to the same state, or to none, and to the same histories. -/
def Reaches : Option (Nat × Arena) → Option (Nat × Memory) → Prop :=
  Option.Rel fun reached plain => reached.1 = plain.1 ∧ reached.2.Represents plain.2

theorem follow_refines (input : List Char) {g : GuardedMatcher} (tidy : g.Tidy)
    (consistent : g.matcher.Consistent) (state : Nat) {arena : Arena} {memory : Memory}
    (represents : arena.Represents memory) (position : Int) :
    Refines (Keeps Reaches) (g.follow state arena position input)
      (g.matcher.follow state memory position input) := by
  induction input generalizing g state arena memory position with
  | nil => exact .gives (tidy.keeps (.some ⟨rfl, represents⟩))
  | cons c rest ih =>
    rw [follow, Matcher.follow]
    have taken := transition_refines tidy consistent state c
    generalize g.transition state c = checked at taken
    generalize plain : g.matcher.transition state c = outcome at taken
    cases taken with
    | refuses fault => exact .refuses fault
    | @gives found expected keeps =>
      obtain ⟨found, later⟩ := found
      obtain ⟨expected, _⟩ := expected
      obtain ⟨rfl, rfl, laterTidy⟩ := keeps
      cases found with
      | none => exact .gives (laterTidy.keeps .none)
      | some transition =>
        dsimp only
        have performed := represents.performAll position transition.instructions
        generalize arena.performAll position transition.instructions = after at performed
        generalize memory.performAll position transition.instructions = expected at performed
        cases performed with
        | refuses fault => exact .refuses fault
        | gives stillRepresents =>
          -- The rest of the input finds what this character may have added.
          have laterConsistent := (Matcher.transition_grows plain).consistent consistent
          exact ih laterTidy laterConsistent transition.target stillRepresents (position + 1)

/-! ### The end of an input -/

theorem acceptance_refines {g : GuardedMatcher} (tidy : g.Tidy) (state : Nat) :
    Refines (Keeps Eq) (g.acceptance state) (g.matcher.acceptance state) := by
  unfold acceptance Matcher.acceptance
  cases g.matcher.acceptances.lookup state with
  | some known => exact .gives (tidy.keeps rfl)
  | none =>
    apply refines_guarded_bind
    intro configuration _
    rw [tidy.lists, WorkLists.advance_eq]
    cases Closure.advance g.matcher.automaton configuration .finish g.matcher.supply with
    | error fault => exact .refuses fault
    | ok value => exact .gives ⟨rfl, rfl, rfl, tidy.buckets⟩

theorem positions_eq_guarded {arena : Arena} {memory : Memory}
    (represents : arena.Represents memory) (automaton : Automaton) (histories : List HistoryId)
    (tag : Tag) :
    positions automaton arena histories tag =
      guarded (Matcher.positions automaton memory histories tag) := by
  unfold positions Matcher.positions
  cases automaton.slot? tag with
  | none => rfl
  | some slot =>
    dsimp only
    cases histories[slot]? with
    | none => rfl
    | some history =>
      dsimp only
      rw [represents.committed]
      cases memory.committed history <;> rfl

theorem spans_eq_guarded {arena : Arena} {memory : Memory} (represents : arena.Represents memory)
    (automaton : Automaton) (histories : List HistoryId) (group : Group) :
    spans automaton arena histories group =
      guarded (Matcher.spans automaton memory histories group) := by
  unfold spans Matcher.spans
  rw [positions_eq_guarded represents, positions_eq_guarded represents, guarded_bind]
  congr 1
  funext firsts
  rw [guarded_bind]
  rfl

theorem conclude_refines {g : GuardedMatcher} (tidy : g.Tidy) (state : Nat) {arena : Arena}
    {memory : Memory} (represents : arena.Represents memory) (position : Int) :
    Refines (Keeps Eq) (g.conclude state arena position)
      (g.matcher.conclude state memory position) := by
  apply (acceptance_refines tidy state).bind
  rintro ⟨found, later⟩ ⟨_, _⟩ ⟨rfl, rfl, laterTidy⟩ -
  cases found with
  | none => exact .gives (laterTidy.keeps rfl)
  | some acceptance =>
    apply (represents.performAll position _).bind
    intro after expected afterRepresents _
    dsimp only
    rw [mapM_guarded (spans_eq_guarded afterRepresents _ _)]
    apply refines_guarded_bind
    intro groups _
    apply refines_guarded_bind
    intro captures _
    exact .gives (laterTidy.keeps rfl)

/-! ### Inputs -/

theorem matchInput_refines {g : GuardedMatcher} (tidy : g.Tidy) (consistent : g.matcher.Consistent)
    (input : String) : Refines (Keeps Eq) (g.matchInput input) (g.matcher.matchInput input) := by
  unfold matchInput Matcher.matchInput
  cases g.matcher.start with
  | none => exact .gives (tidy.keeps rfl)
  | some start =>
    obtain ⟨state, instructions⟩ := start
    have blank := Arena.ofBlank_refines g.matcher.initial
    generalize Arena.ofBlank g.matcher.initial = opened at blank
    cases blank with
    | gives represents =>
      apply (represents.performAll (-1) instructions).bind
      intro arena memory begins _
      apply (follow_refines _ tidy consistent state begins 0).bind
      rintro ⟨reached, later⟩ ⟨expected, _⟩ ⟨reaches, rfl, laterTidy⟩ -
      cases reaches with
      | none => exact .gives (laterTidy.keeps rfl)
      | some fit =>
        obtain ⟨same, laterRepresents⟩ := fit
        dsimp only
        rw [same]
        exact conclude_refines laterTidy _ laterRepresents _

theorem matchInputs_refines (inputs : List String) {g : GuardedMatcher} (tidy : g.Tidy)
    (consistent : g.matcher.Consistent) :
    Refines (Keeps Eq) (g.matchInputs inputs) (g.matcher.matchInputs inputs) := by
  induction inputs generalizing g with
  | nil => exact .gives (tidy.keeps rfl)
  | cons input rest ih =>
    rw [matchInputs, Matcher.matchInputs]
    apply (matchInput_refines tidy consistent input).bind
    rintro ⟨result, later⟩ ⟨_, _⟩ ⟨rfl, rfl, laterTidy⟩ matched
    have laterConsistent := (Matcher.matchInput_grows matched).consistent consistent
    apply (ih laterTidy laterConsistent).bind
    rintro ⟨results, last⟩ ⟨_, _⟩ ⟨rfl, rfl, lastTidy⟩ -
    exact .gives (lastTidy.keeps rfl)

/-- A new guarded matcher is in order. -/
theorem exists_ofAutomaton {automaton : Automaton} {merge : Bool} {matcher : Matcher}
    (made : Matcher.ofAutomaton automaton merge = .ok matcher) :
    ∃ g, ofAutomaton automaton merge = .ok g ∧ g.matcher = matcher ∧ g.Tidy := by
  unfold Matcher.ofAutomaton at made
  obtain ⟨⟨initial, afterInitial⟩, initialised, made⟩ := Fault.of_bind_eq_ok made
  obtain ⟨⟨scratch, afterScratch⟩, reserved, made⟩ := Fault.of_bind_eq_ok made
  obtain ⟨⟨reached, supply⟩, advanced, made⟩ := Fault.of_bind_eq_ok made
  unfold ofAutomaton
  rw [Alphabet.partition_eq, initialised]
  dsimp only [bind, Except.bind, guarded]
  rw [reserved]
  dsimp only [guarded]
  rw [WorkLists.advance_eq, advanced]
  cases reached with
  | none =>
    obtain rfl := Except.ok.inj made
    exact ⟨_, rfl, rfl, rfl, fun key => rfl⟩
  | some pair =>
    obtain ⟨configuration, instructions⟩ := pair
    obtain rfl := Except.ok.inj made
    have first (key : List StateId) : ((addToBucket configuration.key 0 []).lookup key).getD [] =
        (Registry.empty.register configuration).2.indicesOf key := by
      rw [lookup_addToBucket, Registry.indicesOf_register]
      rfl
    exact ⟨_, rfl, rfl, rfl, first⟩

end GuardedMatcher

/-- Matching never breaks a condition that it relies upon. -/
theorem Automaton.guardedResults_eq_ok (builder : Builder) (automaton : Automaton)
    (built : builder.build = .ok automaton) (entire : ∃ group ∈ automaton.groups, group.number = 0)
    (merge : Bool) (inputs : List String)
    (enough : automaton.results merge inputs ≠ .error .historiesExhausted) :
    ∃ results, automaton.guardedResults merge inputs = .ok results ∧
      automaton.results merge inputs = .ok results := by
  obtain ⟨matcher, results, later, made, consistent, -, success⟩ := exists_run built entire enough
  obtain ⟨g, opened, rfl, tidy⟩ := GuardedMatcher.exists_ofAutomaton made
  have refines := GuardedMatcher.matchInputs_refines inputs tidy consistent
  refine ⟨results, ?_, ?_⟩
  · rw [guardedResults, opened]
    show (g.matchInputs inputs >>= _) = _
    rw [success] at refines
    generalize g.matchInputs inputs = checked at refines
    cases refines with
    | @gives outcome _ keeps =>
      show Except.ok outcome.1 = .ok results
      rw [keeps.value]
  · rw [results_of_ofAutomaton made, success]
    rfl

/-- States are merged, and a character leads nowhere. -/
theorem Automaton.guardedResults_eq_ok_cyclic :
    ∃ results, Automaton.guardedResults
        ⟨Builder.cyclic.rows, ⟨0⟩, ⟨2⟩, Builder.cyclic.groups⟩ true ["fg", "g", "gggf", "A"] =
          .ok results ∧
      Automaton.results ⟨Builder.cyclic.rows, ⟨0⟩, ⟨2⟩, Builder.cyclic.groups⟩ true
        ["fg", "g", "gggf", "A"] = .ok results := by
  apply guardedResults_eq_ok Builder.cyclic _ (by cbv)
  · exact ⟨.entireMatch, by decide, rfl⟩
  · apply Fault.ne_error_of_isOk
    cbv

end TaggedRegex
