import TaggedRegex.Capture.Match
import TaggedRegex.Automaton.OfRegex
import TaggedRegex.Proofs.Language.Spelling

set_option autoImplicit false

/-!
Matching by backtracking. Every expression is given what is to be done behind it; whatever fails
there makes the expression try its next choice.
-/

namespace TaggedRegex

/-- How far a backtracking matcher has come: what lies ahead, how many characters lie behind, and
the spans that every group has recorded, oldest first. -/
structure Progress where
  rest : List Char
  consumed : Nat
  spans : Nat → List Span

namespace Progress

/-- A beginning with the characters ahead and none of the groups passed. -/
def start (rest : List Char) (consumed : Nat) : Progress := ⟨rest, consumed, fun _ => []⟩

/-- The group has been passed once more, from `first` to here. -/
def record (progress : Progress) (group first : Nat) : Progress :=
  { progress with
    spans := fun other =>
      if other = group then progress.spans other ++ [⟨first, (progress.consumed : Int) - 1⟩]
      else progress.spans other }

/-- Goes on behind the next character, if there is one that is accepted. -/
def read (progress : Progress) (accepts : Char → Bool) (goOn : Progress → Option Progress) :
    Option Progress :=
  match progress.rest with
  | [] => none
  | c :: rest => if accepts c then goOn ⟨rest, progress.consumed + 1, progress.spans⟩ else none

/-- Succeeds if the whole input has been read. -/
def done (progress : Progress) : Option Progress :=
  if progress.rest = [] then some progress else none

end Progress

/-- A greedy repetition tries its body first, a lazy one tries to leave. -/
def Greed.choose (greed : Greed) (again leave : Option Progress) : Option Progress :=
  match greed with
  | .greedy => again <|> leave
  | .lazy => leave <|> again

/-- Passes a body any number of times, with progress made each time. -/
def Greed.iterate (greed : Greed) (body : (Progress → Option Progress) → Progress → Option Progress)
    (goOn : Progress → Option Progress) (progress : Progress) : Option Progress :=
  greed.choose
    (body (fun next => if next.rest.length < progress.rest.length then
      greed.iterate body goOn next else none) progress)
    (goOn progress)
termination_by progress.rest.length

namespace Regex

mutual

/-- Passes an expression whose groups are numbered from `number` on, then does `goOn`. -/
def attempt (number : Nat) (regex : Regex) (goOn : Progress → Option Progress)
    (progress : Progress) : Option Progress :=
  match regex with
  | .any => progress.read (fun _ => true) goOn
  | .lit c => progress.read (fun other => other = c) goOn
  | .set ranges => progress.read (fun c => ranges.any fun range => c ∈ range) goOn
  | .group body =>
      attempt (number + 1) body (fun passed => goOn (passed.record number progress.consumed))
        progress
  | .rep .star greed body => greed.iterate (attempt number body) goOn progress
  | .rep .plus greed body =>
      attempt number body (greed.iterate (attempt number body) goOn) progress
  | .rep .opt greed body => greed.choose (attempt number body goOn progress) (goOn progress)
  | .alt branches => attemptBranches number branches goOn progress
  | .cat items => attemptItems number items goOn progress
  | .atEnd => if progress.rest = [] then goOn progress else none

/-- Tries the branches in order. -/
def attemptBranches (number : Nat) (branches : List Regex) (goOn : Progress → Option Progress)
    (progress : Progress) : Option Progress :=
  match branches with
  | [] => none
  | branch :: rest =>
      attempt number branch goOn progress <|>
        attemptBranches (number + branch.groupCount) rest goOn progress

/-- Passes the expressions one behind the other. -/
def attemptItems (number : Nat) (items : List Regex) (goOn : Progress → Option Progress)
    (progress : Progress) : Option Progress :=
  match items with
  | [] => goOn progress
  | item :: rest =>
      attempt number item (attemptItems (number + item.groupCount) rest goOn) progress

end

/-- Tries every place to begin, the first one first. The match may end anywhere. -/
def searchFrom (regex : Regex) : List Char → Nat → Option Progress
  | [], consumed => attempt 0 (.group regex) some (.start [] consumed)
  | c :: rest, consumed =>
      attempt 0 (.group regex) some (.start (c :: rest) consumed) <|>
        searchFrom regex rest (consumed + 1)

/-- What a backtracking matcher finds. Group 0 is around the expression. -/
def backtrack (regex : Regex) (anchor : Anchor) (input : List Char) : MatchResult :=
  let found := match anchor with
    | .full => attempt 0 (.group regex) Progress.done (.start input 0)
    | .search => searchFrom regex input 0
  match found with
  | none => .noMatch
  | some final => .matched ⟨(List.range (regex.groupCount + 1)).map final.spans, by simp⟩

mutual

/-- No body of a star or plus matches the empty word, not even at the end of the input. -/
def LoopsAdvance : Regex → Prop
  | .any | .lit _ | .set _ | .atEnd => True
  | .group body => body.LoopsAdvance
  | .rep quantifier _ body => (quantifier ≠ .opt → ¬ body.Spells [] []) ∧ body.LoopsAdvance
  | .alt branches => AllLoopsAdvance branches
  | .cat items => AllLoopsAdvance items

def AllLoopsAdvance : List Regex → Prop
  | [] => True
  | regex :: rest => regex.LoopsAdvance ∧ AllLoopsAdvance rest

end

mutual

/-- Whether the expression matches the empty word at the end of the input. -/
def nullable : Regex → Bool
  | .any | .lit _ | .set _ => false
  | .group body => body.nullable
  | .rep .star _ _ => true
  | .rep .plus _ body => body.nullable
  | .rep .opt _ _ => true
  | .alt branches => anyNullable branches
  | .cat items => allNullable items
  | .atEnd => true

def anyNullable : List Regex → Bool
  | [] => false
  | regex :: rest => regex.nullable || anyNullable rest

def allNullable : List Regex → Bool
  | [] => true
  | regex :: rest => regex.nullable && allNullable rest

end

mutual

theorem spells_of_nullable (regex : Regex) (nullable : regex.nullable = true) :
    regex.Spells [] [] := by
  cases regex with
  | any => cases nullable
  | lit c => cases nullable
  | set ranges => cases nullable
  | group body => exact .group (spells_of_nullable body nullable)
  | rep quantifier greed body =>
    cases quantifier with
    | star => exact .starDone greed body []
    | plus =>
      exact Spells.plus (spells_of_nullable body nullable) (.starDone greed body [])
    | opt => exact .optNone greed body []
  | alt branches =>
    rcases spells_of_anyNullable branches nullable with ⟨branch, member, spelled⟩
    exact .alt member spelled
  | cat items => exact spells_of_allNullable items nullable
  | atEnd => exact .atEnd

theorem spells_of_anyNullable (branches : List Regex) (nullable : anyNullable branches = true) :
    ∃ branch ∈ branches, branch.Spells [] [] := by
  cases branches with
  | nil => cases nullable
  | cons branch others =>
    rw [anyNullable, Bool.or_eq_true] at nullable
    rcases nullable with first | later
    · exact ⟨branch, List.mem_cons_self .., spells_of_nullable branch first⟩
    · rcases spells_of_anyNullable others later with ⟨other, member, spelled⟩
      exact ⟨other, List.mem_cons_of_mem _ member, spelled⟩

theorem spells_of_allNullable (items : List Regex) (nullable : allNullable items = true) :
    (Regex.cat items).Spells [] [] := by
  cases items with
  | nil => exact .catNil []
  | cons item others =>
    rw [allNullable, Bool.and_eq_true] at nullable
    exact Spells.catCons (spells_of_nullable item nullable.1)
      (spells_of_allNullable others nullable.2)

end

theorem anyNullable_of_mem {branches : List Regex} {branch : Regex} (member : branch ∈ branches)
    (nullable : branch.nullable = true) : anyNullable branches = true := by
  induction branches with
  | nil => cases member
  | cons other others ih =>
    rw [anyNullable, Bool.or_eq_true]
    rcases List.mem_cons.1 member with rfl | later
    · exact Or.inl nullable
    · exact Or.inr (ih later)

/-- An expression that matches the empty word is nullable. -/
theorem Spells.nullable {regex : Regex} {word behind : List Char}
    (spells : regex.Spells word behind) (empty : word = []) : regex.nullable = true := by
  induction spells with
  | any c behind => cases empty
  | lit c behind => cases empty
  | set behind _ _ => cases empty
  | group _ ih => exact ih empty
  | starDone greed body behind => rfl
  | starMore _ _ _ _ => rfl
  | plus _ _ ih _ => exact ih (List.append_eq_nil_iff.1 empty).1
  | optNone greed body behind => rfl
  | optSome _ _ => rfl
  | alt member _ ih => exact anyNullable_of_mem member (ih empty)
  | catNil behind => rfl
  | catCons _ _ ihFirst ihMore =>
    have parts := List.append_eq_nil_iff.1 empty
    rw [Regex.nullable, allNullable, ihFirst parts.1]
    exact ihMore parts.2
  | atEnd => rfl

/-- The expressions that match the empty word at the end of the input are the nullable ones. -/
theorem nullable_iff_spells (regex : Regex) : regex.nullable = true ↔ regex.Spells [] [] := by
  constructor
  · exact spells_of_nullable regex
  · intro spells
    exact spells.nullable rfl

end Regex

end TaggedRegex
