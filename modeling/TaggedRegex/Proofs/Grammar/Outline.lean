import Mathlib.Data.List.Induction
import TaggedRegex.Proofs.Grammar.Nesting

set_option autoImplicit false

/-!
What a text looks like before anything is known about its expression: where it is plain, and which
of its parentheses and brackets are open. All this is read off the characters from left to right.
-/

namespace TaggedRegex

namespace Surroundings

/-- What a character makes of its surroundings. -/
def next (surroundings : Surroundings) (c : Char) : Surroundings :=
  match surroundings with
  | .plain => if c = '[' then .inClass else if c = '\\' then .escaped else .plain
  | .escaped => .plain
  | .inClass => if c = ']' then .plain else if c = '\\' then .escapedInClass else .inClass
  | .escapedInClass => .inClass

/-- Counting parentheses has no influence on the surroundings. -/
theorem surroundings_next (nesting : Nesting) (c : Char) :
    (nesting.next c).surroundings = nesting.surroundings.next c := by
  obtain ⟨surroundings, depth, deepest⟩ := nesting
  cases surroundings with
  | plain =>
    by_cases opening : c = '('
    · subst opening
      rfl
    · by_cases closing : c = ')'
      · subst closing
        rfl
      · simp only [Nesting.next, next, opening, closing, if_false]
        split
        · rfl
        · split <;> rfl
  | inClass =>
    simp only [Nesting.next, next]
    split
    · rfl
    · split <;> rfl
  | escaped | escapedInClass => rfl

theorem surroundings_foldl (text : List Char) (nesting : Nesting) :
    (text.foldl Nesting.next nesting).surroundings = text.foldl next nesting.surroundings := by
  induction text generalizing nesting with
  | nil => rfl
  | cons c rest ih => rw [List.foldl_cons, List.foldl_cons, ih, surroundings_next]

end Surroundings

/-- What the characters of a text make of the next one. -/
def surroundings (text : List Char) : Surroundings := text.foldl Surroundings.next .plain

theorem surroundings_append (before text : List Char) :
    surroundings (before ++ text) = text.foldl Surroundings.next (surroundings before) := by
  rw [surroundings, List.foldl_append]
  rfl

/-- A text that closes its parentheses closes its classes, too. -/
theorem Nests.plain_append {before text : List Char} {height : Nat}
    (nests : Nests text height) (plain : surroundings before = .plain) :
    surroundings (before ++ text) = .plain := by
  have closed := Surroundings.surroundings_foldl text ⟨.plain, 0, 0⟩
  rw [nests 0 0 (Nat.le_refl 0)] at closed
  rw [surroundings_append, plain]
  exact closed.symm

/-- Inside a class nothing but its items changes the surroundings. -/
theorem Grammar.ClassItems.inClass_append {before body : List Char} {ranges : List CharRange}
    (items : ClassItems body ranges) (inClass : surroundings before = .inClass) :
    surroundings (before ++ body) = .inClass := by
  have kept := Surroundings.surroundings_foldl body ⟨.inClass, 0, 0⟩
  rw [items.foldl_next] at kept
  rw [surroundings_append, inClass]
  exact kept.symm

/-! ### Open parentheses and brackets -/

/-- What is known of a text at its end: its length in bytes, the places of the parentheses that are
open, innermost first, and the place of the bracket of the class it ends in. -/
structure Outline where
  surroundings : Surroundings
  place : Nat
  parens : List Nat
  bracket : Option Nat

/-- One character more. -/
def Outline.next (outline : Outline) (c : Char) : Outline where
  surroundings := outline.surroundings.next c
  place := outline.place + c.utf8Size
  parens :=
    match outline.surroundings with
    | .plain =>
        if c = '(' then outline.place :: outline.parens
        else if c = ')' then outline.parens.tail
        else outline.parens
    | .escaped | .inClass | .escapedInClass => outline.parens
  bracket :=
    match outline.surroundings with
    | .plain => if c = '[' then some outline.place else none
    | .inClass => if c = ']' then none else outline.bracket
    | .escaped => none
    | .escapedInClass => outline.bracket

def outline (text : List Char) : Outline := text.foldl Outline.next ⟨.plain, 0, [], none⟩

theorem outline_append_singleton (text : List Char) (c : Char) :
    outline (text ++ [c]) = (outline text).next c := by
  rw [outline, List.foldl_append]
  rfl

theorem outline_surroundings (text : List Char) :
    (outline text).surroundings = surroundings text := by
  induction text using List.reverseRecOn with
  | nil => rfl
  | append_singleton text c ih =>
    rw [outline_append_singleton, surroundings_append, ← ih]
    rfl

theorem outline_place (text : List Char) : (outline text).place = Reading.utf8Length text := by
  induction text using List.reverseRecOn with
  | nil => rfl
  | append_singleton text c ih =>
    rw [outline_append_singleton, Reading.utf8Length_append, ← ih]
    rfl

/-- The text has the character at the place, and is plain before it. -/
def PlainAt (c : Char) (place : Nat) (text : List Char) : Prop :=
  ∃ before rest, text = before ++ c :: rest ∧ place = Reading.utf8Length before ∧
    surroundings before = .plain

theorem PlainAt.append {c : Char} {place : Nat} {text : List Char} (there : PlainAt c place text)
    (added : List Char) : PlainAt c place (text ++ added) := by
  obtain ⟨before, rest, rfl, here⟩ := there
  exact ⟨before, rest ++ added, List.append_assoc .., here⟩

theorem plainAt_last {c : Char} {text : List Char} (plain : (outline text).surroundings = .plain) :
    PlainAt c (outline text).place (text ++ [c]) :=
  ⟨text, [], rfl, outline_place text, outline_surroundings text ▸ plain⟩

/-- At every place in the outline there is a parenthesis. -/
theorem plainAt_of_mem_parens {text : List Char} {place : Nat}
    (member : place ∈ (outline text).parens) : PlainAt '(' place text := by
  induction text using List.reverseRecOn with
  | nil => cases member
  | append_singleton text c ih =>
    rw [outline_append_singleton] at member
    have known : place ∈ (outline text).parens → PlainAt '(' place (text ++ [c]) :=
      fun member => (ih member).append [c]
    cases here : (outline text).surroundings with
    | plain =>
      simp only [Outline.next, here] at member
      split at member
      · rename_i opening
        subst opening
        rcases List.mem_cons.1 member with rfl | member
        · exact plainAt_last here
        · exact known member
      · split at member
        · exact known (List.mem_of_mem_tail member)
        · exact known member
    | escaped | inClass | escapedInClass =>
      simp only [Outline.next, here] at member
      exact known member

theorem plainAt_of_bracket {text : List Char} {place : Nat}
    (found : (outline text).bracket = some place) : PlainAt '[' place text := by
  induction text using List.reverseRecOn with
  | nil => cases found
  | append_singleton text c ih =>
    rw [outline_append_singleton] at found
    have known : (outline text).bracket = some place → PlainAt '[' place (text ++ [c]) :=
      fun found => (ih found).append [c]
    cases here : (outline text).surroundings with
    | plain =>
      simp only [Outline.next, here] at found
      split at found
      · rename_i opening
        subst opening
        obtain rfl := Option.some.inj found
        exact plainAt_last here
      · cases found
    | escaped =>
      simp only [Outline.next, here] at found
      cases found
    | inClass =>
      simp only [Outline.next, here] at found
      split at found
      · cases found
      · exact known found
    | escapedInClass =>
      simp only [Outline.next, here] at found
      exact known found

end TaggedRegex
