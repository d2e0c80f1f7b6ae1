import TaggedRegex.Proofs.Grammar.Basic

set_option autoImplicit false

/-!
How deep parentheses nest in a text, and how deep they nest in the text of an expression. What the
grammar derives never needs more parentheses than the text it was derived from.
-/

namespace TaggedRegex

/-- What the characters before the next one have made of it. -/
inductive Surroundings where
  | plain
  /-- Behind a backslash. -/
  | escaped
  | inClass
  /-- Inside a class and behind a backslash. -/
  | escapedInClass

/-- How many parentheses are open, and how many have been open at most. -/
structure Nesting where
  surroundings : Surroundings
  depth : Nat
  deepest : Nat

/-- One character more. Behind a backslash and inside a class a parenthesis is a character like
any other. -/
def Nesting.next (nesting : Nesting) (c : Char) : Nesting :=
  match nesting.surroundings with
  | .plain =>
      if c = '(' then ⟨.plain, nesting.depth + 1, max nesting.deepest (nesting.depth + 1)⟩
      else if c = ')' then ⟨.plain, nesting.depth - 1, nesting.deepest⟩
      else if c = '[' then { nesting with surroundings := .inClass }
      else if c = '\\' then { nesting with surroundings := .escaped }
      else nesting
  | .escaped => { nesting with surroundings := .plain }
  | .inClass =>
      if c = ']' then { nesting with surroundings := .plain }
      else if c = '\\' then { nesting with surroundings := .escapedInClass }
      else nesting
  | .escapedInClass => { nesting with surroundings := .inClass }

/-- How deep the parentheses of a text nest. -/
def nestingDepth (text : List Char) : Nat := (text.foldl Nesting.next ⟨.plain, 0, 0⟩).deepest

/-- The text closes every parenthesis that it opens, and nests them `height` deep. -/
def Nests (text : List Char) (height : Nat) : Prop :=
  ∀ depth deepest, depth ≤ deepest → text.foldl Nesting.next ⟨.plain, depth, deepest⟩ =
    ⟨.plain, depth, max deepest (depth + height)⟩

theorem Nests.nestingDepth_eq {text : List Char} {height : Nat} (nests : Nests text height) :
    nestingDepth text = height := by
  rw [nestingDepth, nests 0 0 (Nat.le_refl 0)]
  simp

theorem nests_nil : Nests [] 0 := fun depth deepest le => by simp; omega

theorem Nests.append {first second : List Char} {height other : Nat} (nests : Nests first height)
    (behind : Nests second other) : Nests (first ++ second) (max height other) := by
  intro depth deepest le
  rw [List.foldl_append, nests depth deepest le, behind depth _ (by omega)]
  simp only [Nesting.mk.injEq, true_and]
  omega

/-- Nothing changes at a character without a meaning for parentheses. -/
theorem nests_singleton {c : Char} (free : c ∉ ['(', ')', '[', '\\']) : Nests [c] 0 := by
  intro depth deepest le
  have same : Nesting.next ⟨.plain, depth, deepest⟩ c = ⟨.plain, depth, deepest⟩ := by
    simp only [List.mem_cons, List.not_mem_nil, or_false, not_or] at free
    simp [Nesting.next, free]
  rw [List.foldl_cons, same]
  simp
  omega

theorem nests_escape (c : Char) : Nests ['\\', c] 0 := by
  intro depth deepest le
  show Nesting.mk .plain depth deepest = _
  rw [Nat.add_zero, Nat.max_eq_left le]

theorem Nests.parenthesised {text : List Char} {height : Nat} (nests : Nests text height) :
    Nests ('(' :: (text ++ [')'])) (height + 1) := by
  intro depth deepest le
  have opened : Nesting.next ⟨.plain, depth, deepest⟩ '(' =
      ⟨.plain, depth + 1, max deepest (depth + 1)⟩ := rfl
  rw [List.foldl_cons, opened, List.foldl_append, nests _ _ (by omega)]
  show Nesting.mk .plain (depth + 1 - 1) _ = _
  simp only [Nesting.mk.injEq, true_and]
  omega

theorem Nests.bracketed {text : List Char} {height : Nat} (nests : Nests text height) :
    Nests ('(' :: '?' :: ':' :: (text ++ [')'])) (height + 1) := by
  have inner := (nests_singleton (c := '?') (by decide)).append
    ((nests_singleton (c := ':') (by decide)).append nests)
  have whole := inner.parenthesised
  rwa [Nat.zero_max, Nat.zero_max] at whole

namespace Grammar

/-- Inside a class nothing changes. -/
theorem ClassChar.foldl_next {text : List Char} {c : Char} (char : ClassChar text c)
    (depth deepest : Nat) :
    text.foldl Nesting.next ⟨.inClass, depth, deepest⟩ = ⟨.inClass, depth, deepest⟩ := by
  cases char with
  | plain c noBracket noBackslash =>
    rw [List.foldl_cons, List.foldl_nil]
    simp [Nesting.next, noBracket, noBackslash]
  | escaped escape => rfl

theorem ClassItems.foldl_next {body : List Char} {ranges : List CharRange}
    (items : ClassItems body ranges) (depth deepest : Nat) :
    body.foldl Nesting.next ⟨.inClass, depth, deepest⟩ = ⟨.inClass, depth, deepest⟩ := by
  induction items with
  | nil => rfl
  | shorthand short items ih => exact ih
  | single char items alone ih => rw [List.foldl_append, char.foldl_next, ih]
  | range lo hi items ih =>
    rw [List.foldl_append, lo.foldl_next, List.foldl_cons]
    show List.foldl Nesting.next ⟨.inClass, depth, deepest⟩ _ = _
    rw [List.foldl_append, hi.foldl_next, ih]

theorem Class.nests {text : List Char} {ranges : List CharRange} (items : Class text ranges) :
    Nests text 0 := by
  intro depth deepest le
  have closed : ∀ {body : List Char} {ranges : List CharRange}, ClassItems body ranges →
      (body ++ [']']).foldl Nesting.next ⟨.inClass, depth, deepest⟩ =
        ⟨.plain, depth, max deepest (depth + 0)⟩ := by
    intro body ranges items
    rw [List.foldl_append, items.foldl_next, Nat.add_zero, Nat.max_eq_left le]
    rfl
  cases items with
  | positive items noCaret => exact closed items
  | negative items => exact closed items

end Grammar

namespace Regex

/-- The height of a text that stands in parentheses where needed. -/
def wrappedHeight (needed : Bool) (height : Nat) : Nat := if needed then height + 1 else height

mutual

/-- How deep parentheses nest in the text of an expression. -/
def height : Regex → Nat
  | .any | .lit _ | .set _ | .atEnd => 0
  | .group body => body.height + 1
  | .rep _ _ body => wrappedHeight (!body.isAtom) body.height
  | .alt branches => heights branches
  | .cat items => heights items

/-- How deep parentheses nest in some expressions, where those with bars stand in parentheses. -/
def heights : List Regex → Nat
  | [] => 0
  | regex :: rest => max (wrappedHeight regex.hasBars regex.height) (heights rest)

end

theorem heights_le_iff (regexes : List Regex) (limit : Nat) :
    heights regexes ≤ limit ↔
      ∀ regex ∈ regexes, wrappedHeight regex.hasBars regex.height ≤ limit := by
  induction regexes with
  | nil => simp [heights]
  | cons regex rest ih => rw [heights, Nat.max_le, ih, List.forall_mem_cons]

theorem height_le_wrappedHeight (needed : Bool) (height : Nat) :
    height ≤ wrappedHeight needed height := by
  unfold wrappedHeight
  split <;> omega

/-- What has bars is no atom, and so are the parts of a sequence that have them. -/
theorem wrappedHeight_pieces_le {regex item : Regex} (member : item ∈ regex.pieces) :
    wrappedHeight item.hasBars item.height ≤ wrappedHeight (!regex.isAtom) regex.height := by
  cases regex with
  | cat items =>
    have each := (heights_le_iff items _).1 (Nat.le_refl _) item member
    have more := height_le_wrappedHeight (!(cat items).isAtom) (cat items).height
    exact Nat.le_trans each more
  | alt branches =>
    rw [List.mem_singleton.1 member]
    cases branches with
    | nil => exact height_le_wrappedHeight _ _
    | cons first rest => exact Nat.le_refl _
  | any | lit | set | group | rep | atEnd =>
    rw [List.mem_singleton.1 member]
    exact height_le_wrappedHeight _ _

theorem wrappedHeight_sequence_le {items : List Regex} {limit : Nat}
    (each : ∀ item ∈ items, wrappedHeight item.hasBars item.height ≤ limit) :
    wrappedHeight (sequence items).hasBars (sequence items).height ≤ limit := by
  unfold sequence
  split
  · exact each _ (List.mem_singleton_self _)
  · exact (heights_le_iff items limit).2 each

theorem height_choice_le {branches : List Regex} {limit : Nat}
    (each : ∀ branch ∈ branches, wrappedHeight branch.hasBars branch.height ≤ limit) :
    (choice branches).height ≤ limit := by
  unfold choice
  split
  · exact Nat.le_trans (height_le_wrappedHeight _ _) (each _ (List.mem_singleton_self _))
  · exact (heights_le_iff branches limit).2 each

end Regex

namespace Grammar

open Regex

mutual

/-- What is derived from a text needs no deeper parentheses than the text has, and the text has no
deeper ones than the grammar allows. -/
theorem Atom.nests {room : Nat} {text : List Char} {regex : Regex} : Atom room text regex →
    ∃ height ≤ room, Nests text height ∧ wrappedHeight (!regex.isAtom) regex.height ≤ height
  | .any => ⟨0, Nat.zero_le _, nests_singleton (by decide), Nat.le_refl 0⟩
  | .atEnd => ⟨0, Nat.zero_le _, nests_singleton (by decide), Nat.le_refl 0⟩
  | .lit plain => by
    refine ⟨0, Nat.zero_le _, nests_singleton ?_, Nat.le_refl 0⟩
    simp_all [reserved]
  | .escapedChar _ => ⟨0, Nat.zero_le _, nests_escape _, Nat.le_refl 0⟩
  | .shorthand _ => ⟨0, Nat.zero_le _, nests_escape _, Nat.le_refl 0⟩
  | .set items => ⟨0, Nat.zero_le _, items.nests, Nat.le_refl 0⟩
  | .group body _ => by
    obtain ⟨height, le, nests, each⟩ := Branches.nests body
    exact ⟨height + 1, by omega, nests.parenthesised, Nat.succ_le_succ (height_choice_le each)⟩
  | .bracketed body => by
    obtain ⟨height, le, nests, each⟩ := Branches.nests body
    refine ⟨height + 1, by omega, nests.bracketed, ?_⟩
    have inner := height_choice_le each
    unfold wrappedHeight
    split <;> omega

theorem Item.nests {room : Nat} {text : List Char} {items : List Regex} : Item room text items →
    ∃ height ≤ room, Nests text height ∧
      ∀ item ∈ items, wrappedHeight item.hasBars item.height ≤ height
  | .once atom => by
    obtain ⟨height, le, nests, bound⟩ := Atom.nests atom
    refine ⟨height, le, nests, fun item member => ?_⟩
    exact Nat.le_trans (wrappedHeight_pieces_le member) bound
  | .greedy quantifier atom => by
    obtain ⟨height, le, nests, bound⟩ := Atom.nests atom
    have sign : Nests [Quantifier.sign quantifier] 0 :=
      nests_singleton (by cases quantifier <;> decide)
    have whole := nests.append sign
    rw [Nat.max_zero] at whole
    refine ⟨height, le, whole, fun item member => ?_⟩
    rw [List.mem_singleton.1 member]
    exact bound
  | .lazy quantifier atom => by
    obtain ⟨height, le, nests, bound⟩ := Atom.nests atom
    have signs : Nests [Quantifier.sign quantifier, '?'] 0 :=
      (nests_singleton (by cases quantifier <;> decide)).append (nests_singleton (by decide))
    have whole := nests.append signs
    rw [Nat.max_zero] at whole
    refine ⟨height, le, whole, fun item member => ?_⟩
    rw [List.mem_singleton.1 member]
    exact bound

theorem Items.nests {room : Nat} {text : List Char} {items : List Regex} : Items room text items →
    ∃ height ≤ room, Nests text height ∧
      ∀ item ∈ items, wrappedHeight item.hasBars item.height ≤ height
  | .nil => ⟨0, Nat.zero_le _, nests_nil, fun _ member => absurd member List.not_mem_nil⟩
  | .cons first others _ => by
    obtain ⟨height, le, nests, each⟩ := Item.nests first
    obtain ⟨other, otherLe, behind, rest⟩ := Items.nests others
    refine ⟨max height other, by omega, nests.append behind, fun item member => ?_⟩
    rcases List.mem_append.1 member with here | later
    · exact Nat.le_trans (each item here) (Nat.le_max_left ..)
    · exact Nat.le_trans (rest item later) (Nat.le_max_right ..)

theorem Branches.nests {room : Nat} {text : List Char} {branches : List Regex} :
    Branches room text branches → ∃ height ≤ room, Nests text height ∧
      ∀ branch ∈ branches, wrappedHeight branch.hasBars branch.height ≤ height
  | .one last => by
    obtain ⟨height, le, nests, each⟩ := Items.nests last
    refine ⟨height, le, nests, fun branch member => ?_⟩
    rw [List.mem_singleton.1 member]
    exact wrappedHeight_sequence_le each
  | .cons first others => by
    obtain ⟨height, le, nests, each⟩ := Items.nests first
    obtain ⟨other, otherLe, behind, rest⟩ := Branches.nests others
    have bar : Nests ['|'] 0 := nests_singleton (by decide)
    have whole := nests.append (bar.append behind)
    rw [Nat.zero_max] at whole
    refine ⟨max height other, by omega, whole, fun branch member => ?_⟩
    rcases List.mem_cons.1 member with rfl | later
    · exact Nat.le_trans (wrappedHeight_sequence_le each) (Nat.le_max_left ..)
    · exact Nat.le_trans (rest branch later) (Nat.le_max_right ..)

end

theorem Pattern.height_le {text : List Char} {regex : Regex} (derived : Pattern text regex) :
    regex.height ≤ nestingDepth text ∧ nestingDepth text ≤ maxDepth := by
  obtain ⟨body⟩ := derived
  obtain ⟨height, le, nests, each⟩ := body.nests
  rw [nests.nestingDepth_eq]
  exact ⟨height_choice_le each, le⟩

end Grammar

end TaggedRegex
