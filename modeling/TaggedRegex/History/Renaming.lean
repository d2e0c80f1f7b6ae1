import TaggedRegex.History.Instruction

set_option autoImplicit false

/-!
One-to-one renamings of histories, and the copies that carry them out one after another.
-/

namespace TaggedRegex

/-- Pairs of a history and its new name, in the order in which they were found. -/
structure Renaming where
  pairs : List (HistoryId × HistoryId)
  deriving DecidableEq

namespace Renaming

/-- Why a pair cannot join a renaming: its source already has another image, or its target is
already the image of another source. The pair that is in the way is named. -/
inductive Clash where
  | sourceTaken (source image : HistoryId)
  | targetTaken (preimage target : HistoryId)
  deriving DecidableEq

def Clash.message : Clash → String
  | .sourceTaken source image => source.text ++ " is already mapped to " ++ image.text
  | .targetTaken preimage target => target.text ++ " is already the image of " ++ preimage.text

def empty : Renaming := ⟨[]⟩

/-- The new name of a history. -/
def image? (pairing : Renaming) (source : HistoryId) : Option HistoryId :=
  pairing.pairs.lookup source

/-- The history that gets this name. -/
def preimage? (pairing : Renaming) (target : HistoryId) : Option HistoryId :=
  (pairing.pairs.map Prod.swap).lookup target

/-- Adds a pair, or says that it was there already, or names the pair that is in the way. A clash
at the source is noticed before one at the target. -/
def insert (pairing : Renaming) (source target : HistoryId) :
    Except Clash (Bool × Renaming) :=
  if (source, target) ∈ pairing.pairs then .ok (false, pairing)
  else
    match pairing.image? source, pairing.preimage? target with
    | some image, _ => .error (.sourceTaken source image)
    | none, some preimage => .error (.targetTaken preimage target)
    | none, none => .ok (true, ⟨pairing.pairs ++ [(source, target)]⟩)

/-- The pairs with another source. -/
def without (source : HistoryId) (pairs : List (HistoryId × HistoryId)) :
    List (HistoryId × HistoryId) :=
  pairs.filter fun pair => pair.1 ≠ source

theorem length_without_lt (source target : HistoryId) (pairs : List (HistoryId × HistoryId))
    (found : pairs.lookup source = some target) :
    (without source pairs).length < pairs.length := by
  apply List.length_filter_lt_length_iff_exists.2
  have isSome : (pairs.lookup source).isSome := by rw [found]; rfl
  obtain ⟨pair, member, same⟩ := List.lookup_isSome_iff.1 isSome
  refine ⟨pair, member, fun other => ?_⟩
  simp only [beq_iff_eq] at same
  simp [same] at other

/-- The names met on the way from `source`, each the image of the one before. Every pair is used
once, so the walk around a cycle ends back at its first name. -/
def walk (pairs : List (HistoryId × HistoryId)) (source : HistoryId) : List HistoryId :=
  match _found : pairs.lookup source with
  | none => []
  | some target => target :: walk (without source pairs) target
termination_by pairs.length
decreasing_by exact length_without_lt source target pairs _found

/-- The copies along a chain of names, from its end to its beginning, so that each name is read
before it is written. -/
def copies (names : List HistoryId) : List Instruction :=
  ((names.zip names.tail).map fun pair => Instruction.copy pair.2 pair.1).reverse

/-- The names of the chain that begins at `source`. -/
def chainFrom (pairing : Renaming) (source : HistoryId) : List HistoryId :=
  source :: walk pairing.pairs source

/-- The sources that are nobody's image: each of them begins a chain. -/
def chainStarts (pairing : Renaming) : List HistoryId :=
  (pairing.pairs.map Prod.fst).filter fun source => (pairing.preimage? source).isNone

/-- The copies around a cycle, whose last value waits in `scratch` meanwhile. -/
def cycleCopies (scratch : HistoryId) (names : List HistoryId) : List Instruction :=
  match names, names.getLast? with
  | first :: _, some last =>
      .copy scratch last :: copies names ++ [.copy first scratch, .reset scratch]
  | _, _ => []

/-- The copies for the names that lie on cycles of two or more; `done` holds those that have been
dealt with. -/
def cyclesInstructions (pairing : Renaming) (scratch : HistoryId) :
    List HistoryId → List HistoryId → List Instruction
  | [], _ => []
  | source :: rest, done =>
      if source ∈ done ∨ pairing.image? source = some source then
        pairing.cyclesInstructions scratch rest done
      else
        let cycle := (pairing.chainFrom source).dropLast
        cycleCopies scratch cycle ++ pairing.cyclesInstructions scratch rest (cycle ++ done)

/-- Instructions after which every target holds what its source held before, as if all copies took
place at once: chains first, then cycles, both in the order of the pairs. -/
def instructions (pairing : Renaming) (scratch : HistoryId) : List Instruction :=
  let chains := pairing.chainStarts.map pairing.chainFrom
  chains.flatMap copies ++
    pairing.cyclesInstructions scratch (pairing.pairs.map Prod.fst) chains.flatten

/-- The pairs in braces. -/
def text (pairing : Renaming) : String :=
  "\x7b" ++ ", ".intercalate (pairing.pairs.map fun pair =>
    pair.1.text ++ " ⇒ " ++ pair.2.text) ++ "\x7d"

end Renaming

end TaggedRegex
