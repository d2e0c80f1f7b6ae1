import TaggedRegex.Proofs.Automaton.Preorder
import TaggedRegex.Proofs.Grammar.Outline
import TaggedRegex.Proofs.Grammar.Soundness

set_option autoImplicit false

/-!
The groups of a pattern, found in its text. The parentheses that open one are those outside classes
and escapes with no question mark behind them; from left to right they open the groups of the
expression in the order of their numbers, and between a parenthesis and the one that closes it
stands the pattern of what is in the group.
-/

namespace TaggedRegex

/-- The text behind each parenthesis that opens a capture group. -/
def behindParens (surroundings : Surroundings) : List Char → List (List Char)
  | [] => []
  | c :: rest =>
      let others := behindParens (surroundings.next c) rest
      match surroundings with
      | .plain => if c = '(' ∧ rest.head? ≠ some '?' then rest :: others else others
      | .escaped | .inClass | .escapedInClass => others

namespace Regex

theorem nestedAll_append (first second : List Regex) (number parent : Nat) :
    nestedAll number parent (first ++ second) =
      nestedAll number parent first ++ nestedAll (number + groupCounts first) parent second := by
  induction first generalizing number with
  | nil => rfl
  | cons regex rest ih =>
    rw [List.cons_append, nestedAll, ih, nestedAll, groupCounts, List.append_assoc, Nat.add_assoc]

theorem nestedAll_singleton (regex : Regex) (number parent : Nat) :
    nestedAll number parent [regex] = regex.nested number parent := by
  rw [nestedAll, nestedAll, List.append_nil]

/-- The groups of an item do not change when it joins the items around it. -/
theorem nestedAll_pieces (regex : Regex) (number parent : Nat) :
    nestedAll number parent regex.pieces = regex.nested number parent := by
  cases regex with
  | cat items => rw [pieces, nested]
  | any | lit | set | group | rep | alt | atEnd => exact nestedAll_singleton ..

theorem nested_sequence (items : List Regex) (number parent : Nat) :
    (sequence items).nested number parent = nestedAll number parent items := by
  unfold sequence
  split
  · rw [nestedAll_singleton]
  · rw [nested]

theorem nested_choice (branches : List Regex) (number parent : Nat) :
    (choice branches).nested number parent = nestedAll number parent branches := by
  unfold choice
  split
  · rw [nestedAll_singleton]
  · rw [nested]

end Regex

namespace Grammar

mutual

/-- What fits into some room fits into more. -/
theorem Atom.weaken {room : Nat} {text : List Char} {regex : Regex} (more : Nat) :
    Atom room text regex → Atom (room + more) text regex
  | .any => .any
  | .atEnd => .atEnd
  | .lit plain => .lit plain
  | .escapedChar escape => .escapedChar escape
  | .shorthand short => .shorthand short
  | .set items => .set items
  | .group body capturing => by
    rw [Nat.add_right_comm]
    exact .group (Branches.weaken more body) capturing
  | .bracketed body => by
    rw [Nat.add_right_comm]
    exact .bracketed (Branches.weaken more body)

theorem Item.weaken {room : Nat} {text : List Char} {items : List Regex} (more : Nat) :
    Item room text items → Item (room + more) text items
  | .once atom => .once (Atom.weaken more atom)
  | .greedy quantifier atom => .greedy quantifier (Atom.weaken more atom)
  | .lazy quantifier atom => .lazy quantifier (Atom.weaken more atom)

theorem Items.weaken {room : Nat} {text : List Char} {items : List Regex} (more : Nat) :
    Items room text items → Items (room + more) text items
  | .nil => .nil
  | .cons first others apart => .cons (Item.weaken more first) (Items.weaken more others) apart

theorem Branches.weaken {room : Nat} {text : List Char} {branches : List Regex} (more : Nat) :
    Branches room text branches → Branches (room + more) text branches
  | .one last => .one (Items.weaken more last)
  | .cons first others => .cons (Items.weaken more first) (Branches.weaken more others)

end

/-- What stands in a group is a pattern of its own. -/
theorem Branches.parse {room : Nat} {text : List Char} {branches : List Regex}
    (derived : Branches room text branches) (within : room ≤ maxDepth) :
    Regex.parse (String.ofList text) = .ok (.choice branches) := by
  have wide := derived.weaken (maxDepth - room)
  rw [Nat.add_sub_cancel' within] at wide
  apply Pattern.parse
  rw [String.toList_ofList]
  exact .branches wide

/-! ### Texts without groups -/

theorem behindParens_singleton {c : Char} (free : c ∉ ['(', '[', '\\']) (rest : List Char) :
    behindParens .plain (c :: rest) = behindParens .plain rest := by
  simp only [List.mem_cons, List.not_mem_nil, or_false, not_or] at free
  simp [behindParens, Surroundings.next, free]

theorem ClassChar.behindParens {text : List Char} {c : Char} (char : ClassChar text c)
    (rest : List Char) : behindParens .inClass (text ++ rest) = behindParens .inClass rest := by
  cases char with
  | plain c noBracket noBackslash =>
    simp [TaggedRegex.behindParens, Surroundings.next, noBracket, noBackslash]
  | escaped escape => rfl

theorem ClassItems.behindParens {body : List Char} {ranges : List CharRange}
    (items : ClassItems body ranges) (rest : List Char) :
    behindParens .inClass (body ++ rest) = behindParens .inClass rest := by
  induction items with
  | nil => rfl
  | shorthand short items ih => exact ih
  | single char items alone ih => rw [List.append_assoc, char.behindParens, ih]
  | range lo hi items ih =>
    rw [List.append_assoc, lo.behindParens]
    show TaggedRegex.behindParens .inClass ((_ ++ _) ++ rest) = _
    rw [List.append_assoc, hi.behindParens, ih]

theorem Class.behindParens {text : List Char} {ranges : List CharRange}
    (items : Class text ranges) (rest : List Char) :
    behindParens .plain (text ++ rest) = behindParens .plain rest := by
  cases items with
  | positive items noCaret =>
    show TaggedRegex.behindParens .inClass ((_ ++ _) ++ rest) = _
    rw [List.append_assoc, items.behindParens]
    rfl
  | negative items =>
    show TaggedRegex.behindParens .inClass ((_ ++ _) ++ rest) = _
    rw [List.append_assoc, items.behindParens]
    rfl

/-! ### Texts with groups -/

/-- The text begins with what stands in the group, and with the parenthesis that closes it. -/
def Opens (behind : List Char) (body : Regex) : Prop :=
  ∃ inside after, behind = inside ++ ')' :: after ∧
    Regex.parse (String.ofList inside) = .ok body

/-- The parentheses in the text, wherever the text stands, open the groups. -/
def Captures (text : List Char) (groups : List (Group × Regex)) : Prop :=
  ∀ rest, ∃ openings, behindParens .plain (text ++ rest) = openings ++ behindParens .plain rest ∧
    List.Forall₂ (fun behind entry => Opens behind entry.2) openings groups

theorem Captures.of_none {text : List Char}
    (none : ∀ rest, behindParens .plain (text ++ rest) = behindParens .plain rest) :
    Captures text [] := fun rest => ⟨[], none rest, .nil⟩

theorem Captures.append {first second : List Char} {groups more : List (Group × Regex)}
    (captures : Captures first groups) (behind : Captures second more) :
    Captures (first ++ second) (groups ++ more) := by
  intro rest
  obtain ⟨early, same, opens⟩ := captures (second ++ rest)
  obtain ⟨late, same', opens'⟩ := behind rest
  refine ⟨early ++ late, ?_, List.rel_append opens opens'⟩
  rw [List.append_assoc, same, same', List.append_assoc]

theorem captures_singleton {c : Char} (free : c ∉ ['(', '[', '\\']) : Captures [c] [] :=
  .of_none fun rest => behindParens_singleton free rest

theorem captures_escape (c : Char) : Captures ['\\', c] [] := .of_none fun _ => rfl

theorem captures_sign (quantifier : Quantifier) : Captures [Regex.Quantifier.sign quantifier] [] :=
  captures_singleton (by cases quantifier <;> decide)

/-- A group, whose parenthesis comes before those in it. -/
theorem Captures.group {text : List Char} {groups : List (Group × Regex)} {group : Group}
    {body : Regex} (captures : Captures text groups)
    (capturing : ∀ tail : List Char, text ≠ '?' :: tail)
    (parsed : Regex.parse (String.ofList text) = .ok body) :
    Captures ('(' :: (text ++ [')'])) ((group, body) :: groups) := by
  intro rest
  have closed := captures.append (captures_singleton (c := ')') (by decide))
  rw [List.append_nil] at closed
  obtain ⟨openings, same, opens⟩ := closed rest
  have first : Opens ((text ++ [')']) ++ rest) body :=
    ⟨text, rest, by rw [List.append_assoc, List.singleton_append], parsed⟩
  refine ⟨((text ++ [')']) ++ rest) :: openings, ?_, .cons first opens⟩
  -- Behind the parenthesis comes the text or, if that is empty, the parenthesis that closes it.
  have noQuery : ((text ++ [')']) ++ rest).head? ≠ some '?' := by
    cases text with
    | nil => exact fun query => absurd (Option.some.inj query) (by decide)
    | cons c tail =>
      intro query
      exact capturing tail (by rw [Option.some.inj query])
  rw [List.cons_append, behindParens, if_pos ⟨rfl, noQuery⟩]
  exact congrArg _ same

/-- Parentheses that capture nothing. -/
theorem Captures.bracketed {text : List Char} {groups : List (Group × Regex)}
    (captures : Captures text groups) : Captures ('(' :: '?' :: ':' :: (text ++ [')'])) groups := by
  have opener : Captures ['(', '?', ':'] [] := .of_none fun _ => rfl
  have whole := opener.append (captures.append (captures_singleton (c := ')') (by decide)))
  rwa [List.append_nil] at whole

mutual

theorem Atom.captures {room : Nat} {text : List Char} {regex : Regex} (within : room ≤ maxDepth)
    (number parent : Nat) : Atom room text regex → Captures text (regex.nested number parent)
  | .any => captures_singleton (by decide)
  | .atEnd => captures_singleton (by decide)
  | .lit plain => captures_singleton fun member => plain (by
      simp only [List.mem_cons, List.not_mem_nil, or_false] at member
      rcases member with rfl | rfl | rfl <;> decide)
  | .escapedChar _ => captures_escape _
  | .shorthand _ => captures_escape _
  | .set items => .of_none items.behindParens
  | .group body capturing => by
    have inner := Branches.captures (Nat.le_of_succ_le within) (number + 1) number body
    rw [← Regex.nested_choice] at inner
    rw [Regex.nested]
    exact inner.group capturing (body.parse (Nat.le_of_succ_le within))
  | .bracketed body => by
    rw [Regex.nested_choice]
    exact (Branches.captures (Nat.le_of_succ_le within) number parent body).bracketed

theorem Item.captures {room : Nat} {text : List Char} {items : List Regex}
    (within : room ≤ maxDepth) (number parent : Nat) :
    Item room text items → Captures text (Regex.nestedAll number parent items)
  | .once atom => by
    rw [Regex.nestedAll_pieces]
    exact Atom.captures within number parent atom
  | .greedy quantifier atom => by
    have whole := (Atom.captures within number parent atom).append (captures_sign quantifier)
    rw [List.append_nil] at whole
    rw [Regex.nestedAll_singleton, Regex.nested]
    exact whole
  | .lazy quantifier atom => by
    have signs := (captures_sign quantifier).append (captures_singleton (c := '?') (by decide))
    have whole := (Atom.captures within number parent atom).append signs
    rw [List.append_nil, List.append_nil] at whole
    rw [Regex.nestedAll_singleton, Regex.nested]
    exact whole

theorem Items.captures {room : Nat} {text : List Char} {items : List Regex}
    (within : room ≤ maxDepth) (number parent : Nat) :
    Items room text items → Captures text (Regex.nestedAll number parent items)
  | .nil => .of_none fun _ => rfl
  | .cons first others _ => by
    rw [Regex.nestedAll_append]
    exact (Item.captures within number parent first).append
      (Items.captures within _ parent others)

theorem Branches.captures {room : Nat} {text : List Char} {branches : List Regex}
    (within : room ≤ maxDepth) (number parent : Nat) :
    Branches room text branches → Captures text (Regex.nestedAll number parent branches)
  | .one last => by
    rw [Regex.nestedAll_singleton, Regex.nested_sequence]
    exact Items.captures within number parent last
  | .cons first others => by
    have bar : Captures ['|'] [] := captures_singleton (by decide)
    rw [Regex.nestedAll, Regex.nested_sequence]
    exact (Items.captures within number parent first).append
      (bar.append (Branches.captures within _ parent others))

end

/-- The capturing parentheses of a pattern open the groups of its expression, one after the
other. -/
theorem Pattern.opens {text : List Char} {regex : Regex} (derived : Pattern text regex)
    (number parent : Nat) : List.Forall₂ (fun behind entry => Opens behind entry.2)
      (behindParens .plain text) (regex.nested number parent) := by
  obtain ⟨body⟩ := derived
  obtain ⟨openings, same, opens⟩ := body.captures (Nat.le_refl maxDepth) number parent []
  rw [List.append_nil] at same
  rw [same, Regex.nested_choice]
  show List.Forall₂ _ (openings ++ []) _
  rwa [List.append_nil]

end Grammar

end TaggedRegex
