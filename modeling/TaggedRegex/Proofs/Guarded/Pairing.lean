import TaggedRegex.Proofs.Determinised.Mappability
import TaggedRegex.Proofs.Guarded.Breach

set_option autoImplicit false

/-!
Renamings that are kept from both sides. They never fall apart, configurations are compared slot by
slot, and the walks that find the copies come to an end: none of this fails, and all of it agrees
with renamings that are kept as pairs.
-/

namespace TaggedRegex

/-- The images of the sources and the preimages of the targets, each looked up on its own. -/
structure Pairing where
  forward : List (HistoryId × HistoryId)
  backward : List (HistoryId × HistoryId)

namespace Pairing

open Renaming (OneToOne Closed)

def empty : Pairing := ⟨[], []⟩

def image? (pairing : Pairing) (source : HistoryId) : Option HistoryId :=
  pairing.forward.lookup source

def preimage? (pairing : Pairing) (target : HistoryId) : Option HistoryId :=
  pairing.backward.lookup target

/-- Adds a pair on both sides. What is known about its source and what is known about its target
must fit together. -/
def insert (pairing : Pairing) (source target : HistoryId) :
    Except Breach (Except Renaming.Clash (Bool × Pairing)) :=
  match pairing.image? source, pairing.preimage? target with
  | none, none =>
      .ok (.ok (true,
        ⟨pairing.forward ++ [(source, target)], pairing.backward ++ [(target, source)]⟩))
  | some image, some preimage =>
      if image ≠ target then .ok (.error (.sourceTaken source image))
      else if preimage ≠ source then .ok (.error (.targetTaken preimage target))
      else .ok (.ok (false, pairing))
  | some image, none =>
      if image ≠ target then .ok (.error (.sourceTaken source image))
      else .error (.halfPaired source target)
  | none, some preimage =>
      if preimage ≠ source then .ok (.error (.targetTaken preimage target))
      else .error (.halfPaired source target)

/-- Adds pairs one by one, up to the first clash. -/
def insertSlots (pairing : Pairing) :
    List (HistoryId × HistoryId) → Except Breach (Option Pairing)
  | [] => .ok (some pairing)
  | (source, target) :: rest =>
      match pairing.insert source target with
      | .error breach => .error breach
      | .ok (.error _) => .ok none
      | .ok (.ok (_, pairing)) => pairing.insertSlots rest

/-- Pairs the slots of threads, which must have equally many. -/
def insertThreads (pairing : Pairing) : List (Thread × Thread) → Except Breach (Option Pairing)
  | [] => .ok (some pairing)
  | (left, right) :: rest =>
      if left.histories.length ≠ right.histories.length then .error .slotsDiffer
      else
        match pairing.insertSlots (left.histories.zip right.histories) with
        | .error breach => .error breach
        | .ok none => .ok none
        | .ok (some pairing) => pairing.insertThreads rest

/-- Pairs the slots of configurations, which must have the same key. -/
def between (source target : Configuration) : Except Breach (Option Pairing) :=
  if source.key ≠ target.key then .error .keysDiffer
  else empty.insertThreads (source.threads.zip target.threads)

/-- A name and the images that follow it, up to one that has no image. -/
def chain (pairing : Pairing) : Nat → HistoryId → Except Breach (List HistoryId)
  | 0, _ => .error .endless
  | steps + 1, name =>
      match pairing.image? name with
      | none => .ok [name]
      | some next => (pairing.chain steps next).map (name :: ·)

/-- A name and the images that follow it, up to the one before `first`. -/
def cycle (pairing : Pairing) (first : HistoryId) : Nat → HistoryId → Except Breach (List HistoryId)
  | 0, _ => .error .endless
  | steps + 1, name =>
      match pairing.image? name with
      | none => .error (.openCycle name)
      | some next =>
          if next = first then .ok [name] else (pairing.cycle first steps next).map (name :: ·)

/-- No walk has more names than this. -/
def limit (pairing : Pairing) : Nat := pairing.forward.length + 1

/-- The chains from the sources that are nobody's image. -/
def chains (pairing : Pairing) : List HistoryId → Except Breach (List (List HistoryId))
  | [] => .ok []
  | source :: rest =>
      if (pairing.preimage? source).isSome then pairing.chains rest
      else do
        let names ← pairing.chain pairing.limit source
        let others ← pairing.chains rest
        return names :: others

/-- The copies for the cycles of the sources that are not done yet. -/
def cycles (pairing : Pairing) (scratch : HistoryId) :
    List HistoryId → List HistoryId → Except Breach (List Instruction)
  | [], _ => .ok []
  | source :: rest, done =>
      if source ∈ done ∨ pairing.image? source = some source then pairing.cycles scratch rest done
      else do
        let names ← pairing.cycle source pairing.limit source
        let others ← pairing.cycles scratch rest (names ++ done)
        return Renaming.cycleCopies scratch names ++ others

def instructions (pairing : Pairing) (scratch : HistoryId) : Except Breach (List Instruction) := do
  let sources := pairing.forward.map Prod.fst
  let chains ← pairing.chains sources
  let copies ← pairing.cycles scratch sources chains.flatten
  return chains.flatMap Renaming.copies ++ copies

/-! ### Both sides agree -/

/-- The pairs of a renaming, seen from both sides. -/
def ofRenaming (plain : Renaming) : Pairing :=
  ⟨plain.pairs, plain.pairs.map Prod.swap⟩

theorem insert_ofRenaming {plain : Renaming} (one : OneToOne plain.pairs)
    (source target : HistoryId) :
    (ofRenaming plain).insert source target =
      .ok ((plain.insert source target).map fun result => (result.1, ofRenaming result.2)) := by
  have image : (ofRenaming plain).image? source = plain.image? source := rfl
  have preimage : (ofRenaming plain).preimage? target = plain.preimage? target := rfl
  rw [insert, Renaming.insert, image, preimage]
  by_cases present : (source, target) ∈ plain.pairs
  · have atSource : plain.image? source = some target := one.lookup_eq_some present
    have atTarget : plain.preimage? target = some source :=
      one.swap.lookup_eq_some (Renaming.mem_swap_iff.2 present)
    rw [if_pos present, atSource, atTarget]
    simp [Except.map]
  · have sourceApart : ∀ other, plain.image? source = some other → other ≠ target := by
      rintro other found rfl
      exact present (Renaming.mem_of_lookup found)
    have targetApart : ∀ other, plain.preimage? target = some other → other ≠ source := by
      rintro other found rfl
      exact present (Renaming.mem_swap_iff.1 (Renaming.mem_of_lookup found))
    rw [if_neg present]
    cases atSource : plain.image? source with
    | some other =>
      have apart := sourceApart other atSource
      cases plain.preimage? target <;> simp [apart, Except.map]
    | none =>
      cases atTarget : plain.preimage? target with
      | some other => simp [targetApart other atTarget, Except.map]
      | none => simp [ofRenaming, Except.map]

theorem insertSlots_ofRenaming (pairs : List (HistoryId × HistoryId)) {plain : Renaming}
    (one : OneToOne plain.pairs) :
    (ofRenaming plain).insertSlots pairs =
      .ok ((Configuration.renamingOfPairs? plain pairs).map ofRenaming) := by
  induction pairs generalizing plain with
  | nil => rfl
  | cons first rest ih =>
    obtain ⟨source, target⟩ := first
    rw [insertSlots, insert_ofRenaming one, Configuration.renamingOfPairs?]
    cases inserted : plain.insert source target with
    | error clash => rfl
    | ok result => exact ih (Configuration.insert_eq_ok inserted one).1

theorem renamingOfPairs?_append (first second : List (HistoryId × HistoryId))
    (plain : Renaming) :
    Configuration.renamingOfPairs? plain (first ++ second) =
      (Configuration.renamingOfPairs? plain first).bind fun middle =>
        Configuration.renamingOfPairs? middle second := by
  induction first generalizing plain with
  | nil => rfl
  | cons pair rest ih =>
    obtain ⟨source, target⟩ := pair
    rw [List.cons_append, Configuration.renamingOfPairs?, Configuration.renamingOfPairs?]
    cases plain.insert source target with
    | error clash => rfl
    | ok result => exact ih result.2

theorem insertThreads_ofRenaming (threads : List (Thread × Thread)) {plain : Renaming}
    (one : OneToOne plain.pairs)
    (lengths : ∀ both ∈ threads, both.1.histories.length = both.2.histories.length) :
    (ofRenaming plain).insertThreads threads =
      .ok ((Configuration.renamingOfPairs? plain
        (threads.flatMap fun both => both.1.histories.zip both.2.histories)).map ofRenaming) := by
  induction threads generalizing plain with
  | nil => rfl
  | cons both rest ih =>
    obtain ⟨left, right⟩ := both
    have here : ¬ left.histories.length ≠ right.histories.length :=
      not_not.2 (lengths (left, right) (List.mem_cons_self ..))
    rw [insertThreads, if_neg here, insertSlots_ofRenaming _ one, List.flatMap_cons,
      renamingOfPairs?_append]
    cases found : Configuration.renamingOfPairs? plain (left.histories.zip right.histories) with
    | none => rfl
    | some middle =>
      exact ih (Configuration.renamingOfPairs?_eq_some found one).1
        fun other member => lengths other (List.mem_cons_of_mem _ member)

/-- Configurations with one key, whose threads have one history for each of the same slots, are
compared without a breach. -/
theorem between_eq {source target : Configuration} (keys : source.key = target.key)
    (counts : source.slotCounts = target.slotCounts) :
    between source target = .ok ((source.renamingOnto? target).map ofRenaming) := by
  rw [between, if_neg (not_not.2 keys)]
  have blank : Renaming.OneToOne Renaming.empty.pairs := ⟨List.nodup_nil, List.nodup_nil⟩
  apply insertThreads_ofRenaming _ blank
  exact fun both member => Configuration.length_histories_of_mem_zip counts member

/-! ### Walks come to an end -/

variable {plain : Renaming}

theorem length_walk_le (pairs : List (HistoryId × HistoryId)) (source : HistoryId) :
    (Renaming.walk pairs source).length ≤ pairs.length := by
  fun_induction Renaming.walk pairs source with
  | case1 => exact Nat.zero_le _
  | case2 pairs source target found ih =>
    have shorter := Renaming.length_without_lt source target pairs found
    rw [List.length_cons]
    omega

theorem chain_of_neighbours (one : OneToOne plain.pairs) {first : HistoryId}
    {names : List HistoryId}
    (paired : ∀ pair ∈ Renaming.neighbours first names, pair ∈ plain.pairs)
    (ends : ∀ last, (first :: names).getLast? = some last → plain.image? last = none)
    {steps : Nat} (enough : names.length < steps) :
    (ofRenaming plain).chain steps first = .ok (first :: names) := by
  induction names generalizing first steps with
  | nil =>
    obtain ⟨steps, rfl⟩ := Nat.exists_eq_add_one.2 enough
    have stops : (ofRenaming plain).image? first = none := ends first rfl
    rw [chain, stops]
  | cons second names ih =>
    obtain ⟨steps, rfl⟩ := Nat.exists_eq_add_one.2 (Nat.lt_of_le_of_lt (Nat.zero_le _) enough)
    have next : (ofRenaming plain).image? first = some second :=
      one.lookup_eq_some (paired (first, second) (by simp))
    have rest := ih (fun pair member => paired pair (List.mem_cons_of_mem (first, second) member))
      (fun last found => ends last (by rw [List.getLast?_cons_cons, found]))
      (Nat.lt_of_succ_lt_succ enough)
    rw [chain, next]
    dsimp only
    rw [rest]
    rfl

/-- From a source that is nobody's image the walk ends at a name that has no image. -/
theorem chain_eq (one : OneToOne plain.pairs) {source : HistoryId}
    (start : ∀ other, (other, source) ∉ plain.pairs) :
    (ofRenaming plain).chain (ofRenaming plain).limit source =
      .ok (plain.chainFrom source) := by
  apply chain_of_neighbours one (fun pair member => Renaming.neighbours_walk member) ?_
    (Nat.lt_succ_of_le (length_walk_le _ _))
  intro last found
  rcases one.walk_ends found with missing | ⟨rfl, again⟩
  · exact missing
  · exact absurd again (Renaming.not_mem_walk_of_start start last)

theorem cycle_of_neighbours (one : OneToOne plain.pairs) {origin first : HistoryId}
    {names : List HistoryId}
    (paired : ∀ pair ∈ Renaming.neighbours first (names ++ [origin]), pair ∈ plain.pairs)
    (apart : origin ∉ names) {steps : Nat} (enough : names.length < steps) :
    (ofRenaming plain).cycle origin steps first = .ok (first :: names) := by
  induction names generalizing first steps with
  | nil =>
    obtain ⟨steps, rfl⟩ := Nat.exists_eq_add_one.2 enough
    have back : (ofRenaming plain).image? first = some origin :=
      one.lookup_eq_some (paired (first, origin) (by simp))
    rw [cycle, back]
    exact if_pos rfl
  | cons second names ih =>
    obtain ⟨steps, rfl⟩ := Nat.exists_eq_add_one.2 (Nat.lt_of_le_of_lt (Nat.zero_le _) enough)
    rw [List.mem_cons, not_or] at apart
    have next : (ofRenaming plain).image? first = some second :=
      one.lookup_eq_some (paired (first, second) (by simp))
    have rest := ih (fun pair member => paired pair (List.mem_cons_of_mem (first, second) member))
      apart.2 (Nat.lt_of_succ_lt_succ enough)
    rw [cycle, next]
    dsimp only
    rw [if_neg (Ne.symm apart.1), rest]
    rfl

/-- On a cycle every name has an image, and the walk comes back. -/
theorem cycle_eq (one : OneToOne plain.pairs) {source : HistoryId} {front : List HistoryId}
    (returns : Renaming.walk plain.pairs source = front ++ [source]) :
    (ofRenaming plain).cycle source (ofRenaming plain).limit source =
      .ok (source :: front) := by
  have walked := one.nodup_walk source
  have short := length_walk_le plain.pairs source
  rw [returns] at walked short
  apply cycle_of_neighbours one
  · rw [← returns]
    exact fun pair member => Renaming.neighbours_walk member
  · intro inside
    exact (List.nodup_append.1 walked).2.2 source inside source (List.mem_singleton_self _) rfl
  · rw [List.length_append, List.length_singleton] at short
    exact Nat.lt_succ_of_lt short

/-! ### Copies -/

theorem chains_eq (one : OneToOne plain.pairs) (sources : List HistoryId) :
    (ofRenaming plain).chains sources =
      .ok ((sources.filter fun source => (plain.preimage? source).isNone).map
        plain.chainFrom) := by
  induction sources with
  | nil => rfl
  | cons source rest ih =>
    have preimage : (ofRenaming plain).preimage? source = plain.preimage? source := rfl
    rw [chains, preimage, ih]
    cases found : plain.preimage? source with
    | some other =>
      rw [List.filter_cons_of_neg (by simp [found])]
      rfl
    | none =>
      have start : ∀ other, (other, source) ∉ plain.pairs := by
        intro other member
        have known : plain.preimage? source = some other :=
          one.swap.lookup_eq_some (Renaming.mem_swap_iff.2 member)
        rw [found] at known
        cases known
      rw [List.filter_cons_of_pos (by simp [found]), chain_eq one start]
      rfl

/-- The names that are done are closed and hold all beginnings of chains, so whatever is left lies
on cycles. -/
theorem cycles_eq (one : OneToOne plain.pairs) (scratch : HistoryId) (sources : List HistoryId)
    (isSource : ∀ source ∈ sources, ∃ target, (source, target) ∈ plain.pairs)
    (done : List HistoryId) (closed : Closed plain.pairs done)
    (starts : ∀ start ∈ plain.chainStarts, start ∈ done) :
    (ofRenaming plain).cycles scratch sources done =
      .ok (plain.cyclesInstructions scratch sources done) := by
  induction sources generalizing done with
  | nil => rfl
  | cons source sources ih =>
    have restSource := fun other member => isSource other (List.mem_cons_of_mem source member)
    have image : (ofRenaming plain).image? source = plain.image? source := rfl
    rw [cycles, Renaming.cyclesInstructions, image]
    by_cases settled : source ∈ done ∨ plain.image? source = some source
    · rw [if_pos settled, if_pos settled]
      exact ih restSource done closed starts
    · rw [if_neg settled, if_neg settled]
      rw [not_or] at settled
      obtain ⟨target, member⟩ := isSource source (List.mem_cons_self ..)
      -- All beginnings of chains are done, so the walk from this source comes back to it.
      obtain ⟨front, returns⟩ := Renaming.walk_returns one closed
        (fun start next image first =>
          starts start (Renaming.mem_chainStarts.2 ⟨⟨next, image⟩, first⟩))
        member settled.1
      have names : (plain.chainFrom source).dropLast = source :: front := by
        rw [Renaming.chainFrom, returns, ← List.cons_append, List.dropLast_concat]
      rw [cycle_eq one returns, names]
      show ((ofRenaming plain).cycles scratch sources ((source :: front) ++ done) >>= _) = _
      rw [ih restSource ((source :: front) ++ done)
        ((Renaming.closed_cycle one returns).append closed)
        fun start begins => List.mem_append_right _ (starts start begins)]
      rfl

/-- The copies of a one-to-one renaming are found without a breach. -/
theorem instructions_eq (one : OneToOne plain.pairs) (scratch : HistoryId) :
    (ofRenaming plain).instructions scratch = .ok (plain.instructions scratch) := by
  have copies := cycles_eq one scratch (plain.pairs.map Prod.fst) (by
    intro source member
    obtain ⟨pair, inside, rfl⟩ := List.mem_map.1 member
    exact ⟨pair.2, inside⟩) _ (Renaming.closed_chained one)
    fun _ begins => Renaming.mem_chained_of_start begins
  have found := chains_eq one (plain.pairs.map Prod.fst)
  rw [instructions, show (ofRenaming plain).forward = plain.pairs from rfl, found]
  show ((ofRenaming plain).cycles scratch (plain.pairs.map Prod.fst)
    plain.chained >>= _) = _
  rw [copies]
  rfl

end Pairing

end TaggedRegex
