import TaggedRegex.Proofs.Guarded.SimultaneousCopies

set_option autoImplicit false

/-!
The answers to insertions. A renaming that is kept from both sides is a bijection after every
sequence of insertions, clashes included: its pairs are those that were new when they came, in the
order in which they came, and each answer is told by the image of the source and the preimage of the
target before it.
-/

namespace TaggedRegex

namespace Renaming

/-- The answers to insertions one after the other. -/
def answers (plain : Renaming) : List (HistoryId × HistoryId) → List (Except Clash Bool)
  | [] => []
  | (source, target) :: rest =>
      match plain.insert source target with
      | .error clash => .error clash :: plain.answers rest
      | .ok (new, after) => .ok new :: after.answers rest

/-- The pairs that were new, in the order in which they came. -/
def accepted (inserts : List (HistoryId × HistoryId)) (answers : List (Except Clash Bool)) :
    List (HistoryId × HistoryId) :=
  ((inserts.zip answers).filter fun both => both.2 = .ok true).map Prod.fst

@[simp] theorem accepted_nil (answers : List (Except Clash Bool)) : accepted [] answers = [] := rfl

@[simp] theorem accepted_cons (pair : HistoryId × HistoryId)
    (inserts : List (HistoryId × HistoryId)) (answer : Except Clash Bool)
    (answers : List (Except Clash Bool)) :
    accepted (pair :: inserts) (answer :: answers) =
      if answer = .ok true then pair :: accepted inserts answers
      else accepted inserts answers := by
  by_cases new : answer = .ok true <;> simp [accepted, new]

theorem length_answers (inserts : List (HistoryId × HistoryId)) (plain : Renaming) :
    (plain.answers inserts).length = inserts.length := by
  induction inserts generalizing plain with
  | nil => rfl
  | cons first rest ih =>
    rw [answers]
    split <;> simp [ih]

variable {plain : Renaming} {source target : HistoryId}

theorem OneToOne.image?_eq_some_iff (one : OneToOne plain.pairs) :
    plain.image? source = some target ↔ (source, target) ∈ plain.pairs :=
  ⟨mem_of_lookup, one.lookup_eq_some⟩

theorem OneToOne.preimage?_eq_some_iff (one : OneToOne plain.pairs) :
    plain.preimage? target = some source ↔ (source, target) ∈ plain.pairs := by
  rw [← mem_swap_iff]
  exact ⟨mem_of_lookup, one.swap.lookup_eq_some⟩

/-! ### One insertion -/

theorem insert_of_image_eq (here : plain.image? source = some target) :
    plain.insert source target = .ok (false, plain) :=
  if_pos (mem_of_lookup here)

theorem OneToOne.insert_of_image (one : OneToOne plain.pairs) {image : HistoryId}
    (here : plain.image? source = some image) (apart : image ≠ target) :
    plain.insert source target = .error (.sourceTaken source image) := by
  have absent : (source, target) ∉ plain.pairs := by
    simp [← one.image?_eq_some_iff, here, apart]
  simp [Renaming.insert, absent, here]

theorem OneToOne.insert_of_preimage (one : OneToOne plain.pairs) {preimage : HistoryId}
    (free : plain.image? source = none) (there : plain.preimage? target = some preimage) :
    plain.insert source target = .error (.targetTaken preimage target) := by
  have absent : (source, target) ∉ plain.pairs := by simp [← one.image?_eq_some_iff, free]
  simp [Renaming.insert, absent, free, there]

theorem OneToOne.insert_of_free (one : OneToOne plain.pairs)
    (free : plain.image? source = none) (unused : plain.preimage? target = none) :
    plain.insert source target = .ok (true, ⟨plain.pairs ++ [(source, target)]⟩) := by
  have absent : (source, target) ∉ plain.pairs := by simp [← one.image?_eq_some_iff, free]
  simp [Renaming.insert, absent, free, unused]

/-- An insertion changes nothing, or adds its pair behind the others. -/
theorem pairs_of_insert {after : Renaming} {new : Bool}
    (inserted : plain.insert source target = .ok (new, after)) :
    after.pairs = plain.pairs ++ if new then [(source, target)] else [] := by
  rw [Renaming.insert] at inserted
  split at inserted
  · obtain ⟨rfl, rfl⟩ := Prod.mk.inj (Except.ok.inj inserted)
    simp
  · split at inserted
    · cases inserted
    · cases inserted
    · obtain ⟨rfl, rfl⟩ := Prod.mk.inj (Except.ok.inj inserted)
      simp

/-- The pairs are those that were there, and behind them those that were new. -/
theorem pairs_insertAll (inserts : List (HistoryId × HistoryId)) (plain : Renaming) :
    (plain.insertAll inserts).pairs = plain.pairs ++ accepted inserts (plain.answers inserts) := by
  induction inserts generalizing plain with
  | nil => simp [insertAll]
  | cons first rest ih =>
    rw [insertAll, answers]
    cases inserted : plain.insert first.1 first.2 with
    | error clash => simp [ih]
    | ok result =>
      obtain ⟨new, after⟩ := result
      cases new <;> simp [ih, pairs_of_insert inserted]

end Renaming

namespace Pairing

open Renaming (Clash OneToOne)

/-- Inserts a pair: the answer, and the pairing after it. A clash changes nothing. -/
def call (pairing : Pairing) (source target : HistoryId) :
    Except Breach (Except Clash Bool × Pairing) :=
  match pairing.insert source target with
  | .error breach => .error breach
  | .ok (.error clash) => .ok (.error clash, pairing)
  | .ok (.ok (new, after)) => .ok (.ok new, after)

/-- Inserts pairs one after the other: all answers, and the pairing after the last. -/
def callAll (pairing : Pairing) :
    List (HistoryId × HistoryId) → Except Breach (List (Except Clash Bool) × Pairing)
  | [] => .ok ([], pairing)
  | (source, target) :: rest => do
      let (answer, after) ← pairing.call source target
      let (answers, last) ← after.callAll rest
      return (answer :: answers, last)

/-- What an insertion answers and leaves behind, told by what is known before it. -/
structure Answers (pairing : Pairing) (source target : HistoryId) (answer : Except Clash Bool)
    (after : Pairing) : Prop where
  new : answer = .ok true ↔ pairing.image? source = none ∧ pairing.preimage? target = none
  present : answer = .ok false ↔ pairing.image? source = some target
  sourceTaken : ∀ first second, answer = .error (.sourceTaken first second) ↔
    first = source ∧ pairing.image? source = some second ∧ second ≠ target
  targetTaken : ∀ first second, answer = .error (.targetTaken first second) ↔
    second = target ∧ pairing.image? source = none ∧ pairing.preimage? target = some first
  grown : answer = .ok true → after.forward = pairing.forward ++ [(source, target)]
  kept : answer ≠ .ok true → after = pairing

variable {plain : Renaming}

theorem forward_ofRenaming : (ofRenaming plain).forward = plain.pairs := rfl

theorem image?_ofRenaming (source : HistoryId) :
    (ofRenaming plain).image? source = plain.image? source := rfl

theorem preimage?_ofRenaming (target : HistoryId) :
    (ofRenaming plain).preimage? target = plain.preimage? target := rfl

/-- The image of the source decides first, and the preimage of the target if there is none. -/
theorem call_ofRenaming (one : OneToOne plain.pairs) (source target : HistoryId) :
    ∃ answer after, (ofRenaming plain).call source target = .ok (answer, after) ∧
      (plain.insert source target).map Prod.fst = answer ∧
      Answers (ofRenaming plain) source target answer after := by
  rw [call, insert_ofRenaming one]
  cases here : plain.image? source with
  | some image =>
    by_cases same : image = target
    · rw [Renaming.insert_of_image_eq (same ▸ here)]
      refine ⟨_, _, rfl, rfl, ?_⟩
      constructor <;> grind [image?_ofRenaming]
    · rw [one.insert_of_image here same]
      refine ⟨_, _, rfl, rfl, ?_⟩
      constructor <;> grind [image?_ofRenaming]
  | none =>
    cases there : plain.preimage? target with
    | some preimage =>
      rw [one.insert_of_preimage here there]
      refine ⟨_, _, rfl, rfl, ?_⟩
      constructor <;> grind [image?_ofRenaming, preimage?_ofRenaming]
    | none =>
      rw [one.insert_of_free here there]
      refine ⟨_, _, rfl, rfl, ?_⟩
      constructor <;> grind [image?_ofRenaming, preimage?_ofRenaming, forward_ofRenaming]

theorem callAll_ofRenaming (calls : List (HistoryId × HistoryId)) {plain : Renaming}
    (one : OneToOne plain.pairs) :
    (ofRenaming plain).callAll calls =
      .ok (plain.answers calls, ofRenaming (plain.insertAll calls)) := by
  induction calls generalizing plain with
  | nil => rfl
  | cons first rest ih =>
    obtain ⟨source, target⟩ := first
    rw [callAll, call, insert_ofRenaming one, Renaming.answers, Renaming.insertAll]
    cases inserted : plain.insert source target with
    | error clash => simp [Except.map, bind, Except.bind, ih one, pure, Except.pure]
    | ok result =>
      have after := (Configuration.insert_eq_ok inserted one).1
      simp [Except.map, bind, Except.bind, ih after, pure, Except.pure]

/-- Whatever is inserted, and whatever clashes, images and preimages are inverse to each other, the
pairs are those that were new when they came, in the order in which they came, and the pairing is
the renaming that is kept as pairs. The next insertion is answered by what is known about its two
sides, which never contradict each other; unless its pair is new, it changes nothing. -/
theorem insertions_keep_bijection (calls : List (HistoryId × HistoryId)) :
    ∃ answers pairing,
      empty.callAll calls = .ok (answers, pairing) ∧
      answers.length = calls.length ∧
      OneToOne pairing.forward ∧
      (∀ source target,
        pairing.image? source = some target ↔ pairing.preimage? target = some source) ∧
      (∀ source target,
        pairing.image? source = some target ↔ (source, target) ∈ pairing.forward) ∧
      pairing.forward = Renaming.accepted calls answers ∧
      pairing = ofRenaming (Renaming.empty.insertAll calls) ∧
      ∀ source target, ∃ answer after,
        pairing.call source target = .ok (answer, after) ∧
        ((Renaming.empty.insertAll calls).insert source target).map Prod.fst = answer ∧
        Answers pairing source target answer after := by
  have one := OneToOne.empty.insertAll calls
  refine ⟨Renaming.empty.answers calls, ofRenaming (Renaming.empty.insertAll calls),
    callAll_ofRenaming calls OneToOne.empty, Renaming.length_answers calls _, one, ?_, ?_, ?_,
    rfl, call_ofRenaming one⟩
  · intro source target
    rw [image?_ofRenaming, preimage?_ofRenaming, one.image?_eq_some_iff,
      one.preimage?_eq_some_iff]
  · intro source target
    exact one.image?_eq_some_iff
  · exact Renaming.pairs_insertAll calls Renaming.empty

/-- Both clashes, with a pair that is there already before them. -/
example : (empty.callAll [(⟨1⟩, ⟨2⟩), (⟨1⟩, ⟨2⟩), (⟨1⟩, ⟨3⟩), (⟨4⟩, ⟨2⟩)]).toOption.map Prod.fst =
    some [.ok true, .ok false, .error (.sourceTaken ⟨1⟩ ⟨2⟩), .error (.targetTaken ⟨1⟩ ⟨2⟩)] := by
  decide

end Pairing

end TaggedRegex
