import Mathlib
import TaggedRegex.Proofs.Grammar.Nesting
import TaggedRegex.Proofs.Grammar.Normal
import TaggedRegex.Proofs.Grammar.Soundness

set_option autoImplicit false

/-!
Printing and reading. The text of an expression is a pattern of the grammar for its normal form, so
it is read as that; what has been read before is read again as it is.
-/

namespace TaggedRegex.Regex

open Grammar

/-! ### Characters and classes -/

/-- The ways in which a character is written. -/
theorem escapedChar_cases {special : List Char} (c : Char)
    (signs : ∀ d ∈ special, Text.isAlphanumeric d = false) :
    (∃ d, escapedChar special c = ['\\', d] ∧ EscapedChar d c) ∨
      escapedChar special c = [c] ∧ c ∉ special := by
  unfold escapedChar
  split
  · rename_i newline
    exact .inl ⟨'n', rfl, newline ▸ .newline⟩
  · split
    · rename_i tab
      exact .inl ⟨'t', rfl, tab ▸ .tab⟩
    · split
      · rename_i carriageReturn
        exact .inl ⟨'r', rfl, carriageReturn ▸ .carriageReturn⟩
      · split
        · rename_i member
          exact .inl ⟨c, rfl, .self c (signs c member)⟩
        · rename_i free
          exact .inr ⟨rfl, free⟩

/-- A decision about every character of a list looks at those and no others. -/
theorem forall_mem_of_all {chars : List Char} {holds : Char → Prop} [DecidablePred holds]
    (checked : chars.all (fun c => decide (holds c)) = true) : ∀ c ∈ chars, holds c :=
  fun c member => of_decide_eq_true (List.all_eq_true.1 checked c member)

theorem isAlphanumeric_metaChars : ∀ c ∈ metaChars, Text.isAlphanumeric c = false :=
  forall_mem_of_all (by decide)

theorem isAlphanumeric_classMetaChars : ∀ c ∈ classMetaChars, Text.isAlphanumeric c = false :=
  forall_mem_of_all (by decide)

theorem mem_metaChars_of_mem_reserved : ∀ c ∈ reserved, c ∈ metaChars :=
  forall_mem_of_all (by decide)

theorem atom_lit (room : Nat) (c : Char) : Atom room (escapedChar metaChars c) (.lit c) := by
  rcases escapedChar_cases c isAlphanumeric_metaChars with ⟨d, written, escape⟩ | ⟨written, free⟩
  · rw [written]
    exact .escapedChar escape
  · rw [written]
    exact .lit fun special => free (mem_metaChars_of_mem_reserved c special)

theorem classChar_escapedChar (c : Char) : ClassChar (escapedChar classMetaChars c) c := by
  rcases escapedChar_cases c isAlphanumeric_classMetaChars with
    ⟨d, written, escape⟩ | ⟨written, free⟩
  · rw [written]
    exact .escaped escape
  · rw [written]
    exact .plain c (fun same => free (same ▸ by decide)) (fun same => free (same ▸ by decide))

/-- No item of a class is written with a character at the front that has a meaning there. -/
theorem flatMap_classItem_ne {special : Char} (member : special ∈ classMetaChars)
    (noBackslash : special ≠ '\\') (ranges : List CharRange) (tail : List Char) :
    ranges.flatMap classItem ≠ special :: tail := by
  cases ranges with
  | nil => exact List.cons_ne_nil _ _ |>.symm
  | cons range rest =>
    rw [List.flatMap_cons, classItem, List.append_assoc]
    rcases escapedChar_cases range.lo isAlphanumeric_classMetaChars with
      ⟨d, written, -⟩ | ⟨written, free⟩
    · rw [written]
      exact fun same => noBackslash (List.cons.inj same).1.symm
    · rw [written]
      exact fun same => free ((List.cons.inj same).1 ▸ member)

theorem classItems_flatMap (ranges : List CharRange) :
    ClassItems (ranges.flatMap classItem) ranges := by
  induction ranges with
  | nil => exact .nil
  | cons range rest ih =>
    rw [List.flatMap_cons, classItem, List.append_assoc]
    split
    · rename_i same
      obtain ⟨lo, hi, ordered⟩ := range
      obtain rfl : hi = lo := same
      exact .single (classChar_escapedChar hi) ih
        fun c tail => flatMap_classItem_ne (by decide) (by decide) rest (c :: tail)
    · exact .range (classChar_escapedChar range.lo) (classChar_escapedChar range.hi) ih

theorem class_chars (ranges : List CharRange) :
    Class ('[' :: (ranges.flatMap classItem ++ [']'])) ranges :=
  .positive (classItems_flatMap ranges) (flatMap_classItem_ne (by decide) (by decide) ranges)

/-! ### Derivations of printed texts -/

/-- The text of an expression is derived as its normal form, as what is as long as a branch, a
sequence or an item, according to what the expression is. -/
structure Printed (room : Nat) (regex : Regex) : Prop where
  branches : ∃ branches, Branches room regex.chars branches ∧ choice branches = regex.norm
  items : regex.hasBars = false → Items room regex.chars regex.norm.pieces
  atom : regex.isAtom = true → Atom room regex.chars regex.norm

theorem Printed.of_items {room : Nat} {regex : Regex} (noAtom : regex.isAtom = false)
    (items : Items room regex.chars regex.norm.pieces) : Printed room regex where
  branches := ⟨_, .one items, (normal_norm regex).whole⟩
  items _ := items
  atom isAtom := by rw [noAtom] at isAtom; cases isAtom

theorem Printed.of_atom {room : Nat} {regex : Regex} (atom : Atom room regex.chars regex.norm) :
    Printed room regex where
  branches := ⟨_, .one (Item.once atom).items, (normal_norm regex).whole⟩
  items _ := (Item.once atom).items
  atom _ := atom

/-- A group that captures nothing, put around the text where it is needed. -/
theorem Printed.bracketed {room : Nat} {regex : Regex} (printed : Printed room regex) :
    Atom (room + 1) (wrappedIf true regex.chars) regex.norm := by
  obtain ⟨branches, derived, same⟩ := printed.branches
  have atom := Atom.bracketed derived
  rwa [same] at atom

/-- Parentheses take one of the groups that may be opened. -/
theorem exists_room {height room : Nat} (within : height + 1 ≤ room) :
    ∃ inner, room = inner + 1 ∧ height ≤ inner :=
  ⟨room - 1, by omega, by omega⟩

theorem operand_of_printed {room : Nat} {regex : Regex}
    (printed : ∀ room, regex.height ≤ room → Printed room regex)
    (within : wrappedHeight (!regex.isAtom) regex.height ≤ room) :
    Atom room (wrappedIf (!regex.isAtom) regex.chars) regex.norm := by
  cases atom : regex.isAtom with
  | true =>
    rw [atom] at within
    exact (printed room within).atom atom
  | false =>
    rw [atom] at within
    obtain ⟨inner, rfl, inside⟩ := exists_room within
    exact (printed inner inside).bracketed

theorem part_of_printed {room : Nat} {regex : Regex}
    (printed : ∀ room, regex.height ≤ room → Printed room regex)
    (within : wrappedHeight regex.hasBars regex.height ≤ room) :
    Items room (wrappedIf regex.hasBars regex.chars) regex.norm.pieces := by
  cases bars : regex.hasBars with
  | false =>
    rw [bars] at within
    exact (printed room within).items bars
  | true =>
    rw [bars] at within
    obtain ⟨inner, rfl, inside⟩ := exists_room within
    exact (Item.once (printed inner inside).bracketed).items

mutual

theorem printed : (regex : Regex) → ∀ room, regex.height ≤ room → Printed room regex
  | .any, _, _ => .of_atom .any
  | .lit c, room, _ => .of_atom (atom_lit room c)
  | .set ranges, _, _ => .of_atom (.set (class_chars ranges))
  | .atEnd, _, _ => .of_atom .atEnd
  | .group body, room, within => by
    obtain ⟨inner, rfl, inside⟩ := exists_room within
    obtain ⟨branches, derived, same⟩ := (printed body inner inside).branches
    have atom := Atom.group derived derived.ne_query
    rw [same] at atom
    exact .of_atom atom
  | .rep quantifier greed body, room, within => by
    have atom := operand_of_printed (printed body) within
    refine .of_items rfl ?_
    cases greed with
    | greedy => exact (Item.greedy quantifier atom).items
    | lazy => exact (Item.lazy quantifier atom).items
  -- No branch at all is written as a class that holds no character.
  | .alt [], _, _ => .of_items rfl (Item.once (.set (class_chars []))).items
  | .alt (first :: rest), room, within => by
    have each := Nat.max_le.1 within
    have derived := printed_branches rest room each.2 (part_of_printed (printed first) each.1)
    rw [(normal_norm first).whole] at derived
    exact {
      branches := ⟨_, derived, rfl⟩
      items := fun noBars => Bool.noConfusion noBars
      atom := fun isAtom => Bool.noConfusion isAtom }
  | .cat items, room, within => by
    refine .of_items rfl ?_
    have parts := pieces_sequence fun item member => (normal_normPieces items item member).2
    show Items room (itemChars items) (sequence (normPieces items)).pieces
    rw [parts]
    exact printed_items items room within

theorem printed_branches : (rest : List Regex) → ∀ room, heights rest ≤ room →
    ∀ {text : List Char} {items : List Regex}, Items room text items →
      Branches room (text ++ branchChars rest) (sequence items :: normAll rest)
  | [], room, _, text, items, first => by
    show Branches room (text ++ []) _
    rw [List.append_nil]
    exact .one first
  | branch :: rest, room, within, text, items, first => by
    have each := Nat.max_le.1 within
    have others := printed_branches rest room each.2 (part_of_printed (printed branch) each.1)
    rw [(normal_norm branch).whole] at others
    exact .cons first others

theorem printed_items : (items : List Regex) → ∀ room, heights items ≤ room →
    Items room (itemChars items) (normPieces items)
  | [], _, _ => .nil
  | item :: rest, room, within => by
    have each := Nat.max_le.1 within
    exact (part_of_printed (printed item) each.1).append (printed_items rest room each.2)

end

/-! ### The nesting of printed texts -/

theorem nests_wrappedIf {text : List Char} {height : Nat} (nests : Nests text height)
    (needed : Bool) : Nests (wrappedIf needed text) (wrappedHeight needed height) := by
  cases needed with
  | true => exact nests.bracketed
  | false => exact nests

theorem nests_escapedChar (c : Char) : Nests (escapedChar metaChars c) 0 := by
  obtain ⟨height, le, nests, -⟩ := (atom_lit 0 c).nests
  obtain rfl := Nat.le_zero.1 le
  exact nests

theorem nests_repetitionSigns (quantifier : Quantifier) (greed : Greed) :
    Nests (repetitionSigns quantifier greed) 0 := by
  have sign : Nests [Quantifier.sign quantifier] 0 :=
    nests_singleton (by cases quantifier <;> decide)
  cases greed with
  | greedy => exact sign
  | lazy => exact sign.append (nests_singleton (by decide))

mutual

theorem nests_chars : (regex : Regex) → Nests regex.chars regex.height
  | .any => nests_singleton (by decide)
  | .lit c => nests_escapedChar c
  | .set ranges => (class_chars ranges).nests
  | .atEnd => nests_singleton (by decide)
  | .group body => (nests_chars body).parenthesised
  | .rep quantifier greed body => by
    have whole := (nests_wrappedIf (nests_chars body) (!body.isAtom)).append
      (nests_repetitionSigns quantifier greed)
    rwa [Nat.max_zero] at whole
  | .alt [] => (class_chars []).nests
  | .alt (first :: rest) =>
    (nests_wrappedIf (nests_chars first) first.hasBars).append (nests_branchChars rest)
  | .cat items => nests_itemChars items

theorem nests_branchChars :
    (branches : List Regex) → Nests (branchChars branches) (heights branches)
  | [] => nests_nil
  | branch :: rest => by
    have whole := (nests_singleton (c := '|') (by decide)).append
      ((nests_wrappedIf (nests_chars branch) branch.hasBars).append (nests_branchChars rest))
    rwa [Nat.zero_max] at whole

theorem nests_itemChars : (items : List Regex) → Nests (itemChars items) (heights items)
  | [] => nests_nil
  | item :: rest => (nests_wrappedIf (nests_chars item) item.hasBars).append (nests_itemChars rest)

end

theorem nestingDepth_chars (regex : Regex) : nestingDepth regex.chars = regex.height :=
  (nests_chars regex).nestingDepth_eq

/-- The text of an expression is a pattern that stands for its normal form. -/
theorem pattern_chars (regex : Regex) (within : regex.height ≤ maxDepth) :
    Pattern regex.chars regex.norm := by
  obtain ⟨branches, derived, same⟩ := (printed regex maxDepth within).branches
  rw [← same]
  exact .branches derived

/-- The text of an expression is read back as its normal form. -/
theorem parse_of_text (regex : Regex) (within : nestingDepth regex.text.toList ≤ maxDepth) :
    parse regex.text = .ok regex.norm := by
  apply Pattern.parse
  rw [text, String.toList_ofList] at within ⊢
  rw [nestingDepth_chars] at within
  exact pattern_chars regex within

/-- An expression whose text does not nest parentheses too deep is read back as its normal form. An
expression that has been read is normal, its text nests parentheses no deeper than the one it was
read from, and it is read back as it is. -/
theorem parse_text :
    (∀ regex : Regex, nestingDepth regex.text.toList ≤ maxDepth →
      parse regex.text = .ok regex.norm) ∧
    ∀ (pattern : String) (regex : Regex), parse pattern = .ok regex →
      parse regex.text = .ok regex ∧ regex.norm = regex ∧
        nestingDepth regex.text.toList ≤ nestingDepth pattern.toList := by
  refine ⟨parse_of_text, fun pattern regex success => ?_⟩
  have derived := Pattern.of_parse success
  have bounds := derived.height_le
  have shallow : nestingDepth regex.text.toList ≤ nestingDepth pattern.toList := by
    rw [text, String.toList_ofList, nestingDepth_chars]
    exact bounds.1
  have same := derived.normal.norm_eq
  have again := parse_of_text regex (Nat.le_trans shallow bounds.2)
  rw [same] at again
  exact ⟨again, same, shallow⟩

/-- Alternatives of alternatives keep their parentheses, a branch on its own loses them, and the
text of a pattern that has been read leaves out the ones that are not needed. -/
theorem parse_text_nested :
    nestingDepth (cat [alt [lit 'a', alt []], alt [cat [.any]], cat []]).text.toList ≤ maxDepth ∧
      parse (cat [alt [lit 'a', alt []], alt [cat [.any]], cat []]).text =
        .ok (cat [alt [lit 'a', .set []], .any]) ∧
      parse "(?:a|b(?:c))*?" = .ok (rep .star .lazy (alt [lit 'a', cat [lit 'b', lit 'c']])) ∧
      parse (rep .star .lazy (alt [lit 'a', cat [lit 'b', lit 'c']])).text =
        .ok (rep .star .lazy (alt [lit 'a', cat [lit 'b', lit 'c']])) := by
  have within : nestingDepth
      (cat [alt [lit 'a', alt []], alt [cat [.any]], cat []]).text.toList ≤ maxDepth := by
    cbv
  have read : parse "(?:a|b(?:c))*?" =
      .ok (rep .star .lazy (alt [lit 'a', cat [lit 'b', lit 'c']])) := by
    cbv
  exact ⟨within, parse_text.1 _ within, read, (parse_text.2 _ _ read).1⟩

end TaggedRegex.Regex
