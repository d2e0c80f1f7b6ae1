import TaggedRegex.Proofs.Automaton.Preorder
import TaggedRegex.Proofs.Grammar.Landmarks
import TaggedRegex.Proofs.Grammar.Parentheses

set_option autoImplicit false

/-!
How many levels an expression has. The groups of a pattern bound its levels, however long it is:
between one group and the next there is room for a repetition, a sequence and a choice. A group that
has been closed takes no room any more.
-/

namespace TaggedRegex

namespace Regex

/-- What each kind of expression counts. -/
structure Weights where
  leaf : Nat
  group : Nat
  rep : Nat
  alt : Nat
  cat : Nat

namespace Weights

/-- What may come on top of a choice before the next choice. -/
def round (weights : Weights) : Nat := weights.group + weights.rep + weights.cat + weights.alt

/-- What an expression counts without its parts. -/
def self (weights : Weights) : Regex → Nat
  | .any | .lit _ | .set _ | .atEnd => weights.leaf
  | .group _ => weights.group
  | .rep .. => weights.rep
  | .alt _ => weights.alt
  | .cat _ => weights.cat

end Weights

mutual

/-- The most that an expression, one of its parts, a part of that and so on count together. -/
def heaviest (weights : Weights) : Regex → Nat
  | .any | .lit _ | .set _ | .atEnd => weights.leaf
  | .group body => weights.group + body.heaviest weights
  | .rep _ _ body => weights.rep + body.heaviest weights
  | .alt branches => weights.alt + heaviestOf weights branches
  | .cat items => weights.cat + heaviestOf weights items

/-- The most that one of several expressions counts with its parts. -/
def heaviestOf (weights : Weights) : List Regex → Nat
  | [] => 0
  | regex :: rest => max (regex.heaviest weights) (heaviestOf weights rest)

end

/-- How many expressions lie one inside the other; one without parts is a single level. -/
def levels (regex : Regex) : Nat := regex.heaviest ⟨1, 1, 1, 1, 1⟩

/-- How many groups lie one inside the other. -/
def groupNesting (regex : Regex) : Nat := regex.heaviest ⟨0, 1, 0, 0, 0⟩

variable {weights : Weights} {limit : Nat}

theorem heaviestOf_le_iff {regexes : List Regex} :
    heaviestOf weights regexes ≤ limit ↔ ∀ regex ∈ regexes, regex.heaviest weights ≤ limit := by
  induction regexes with
  | nil => simp [heaviestOf]
  | cons regex rest ih => rw [heaviestOf, Nat.max_le, ih, List.forall_mem_cons]

/-- A part counts less than the whole by what the whole counts without its parts. -/
theorem self_add_heaviest_le {regex child : Regex} (part : child ∈ regex.children) :
    weights.self regex + child.heaviest weights ≤ regex.heaviest weights := by
  cases regex with
  | any | lit | set | atEnd => cases part
  | group body | rep _ _ body =>
    obtain rfl := List.mem_singleton.1 part
    simp [heaviest, Weights.self]
  | alt parts | cat parts =>
    rw [heaviest, Weights.self]
    exact Nat.add_le_add_left (heaviestOf_le_iff.1 (Nat.le_refl _) child part) _

theorem heaviest_le_of_mem_pieces {regex item : Regex} (piece : item ∈ regex.pieces) :
    item.heaviest weights ≤ regex.heaviest weights := by
  cases regex with
  | cat items =>
    have inside := heaviestOf_le_iff.1 (Nat.le_refl (heaviestOf weights items)) item piece
    rw [heaviest]
    omega
  | any | lit | set | group | rep | alt | atEnd =>
    obtain rfl := List.mem_singleton.1 piece
    exact Nat.le_refl _

theorem heaviest_sequence_le {items : List Regex}
    (each : ∀ item ∈ items, item.heaviest weights ≤ limit) :
    (sequence items).heaviest weights ≤ limit + weights.cat := by
  unfold sequence
  split
  · exact Nat.le_add_right_of_le (each _ (List.mem_singleton_self _))
  · have most := heaviestOf_le_iff.2 each
    rw [heaviest]
    omega

theorem heaviest_choice_le {branches : List Regex}
    (each : ∀ branch ∈ branches, branch.heaviest weights ≤ limit) :
    (choice branches).heaviest weights ≤ limit + weights.alt := by
  unfold choice
  split
  · exact Nat.le_add_right_of_le (each _ (List.mem_singleton_self _))
  · have most := heaviestOf_le_iff.2 each
    rw [heaviest]
    omega

end Regex

namespace Grammar

open Regex

mutual

/-- With room for one group less, there is one round less. -/
theorem Atom.heaviest_le (weights : Weights) {room : Nat} {text : List Char} {regex : Regex} :
    Atom room text regex → regex.heaviest weights ≤ weights.leaf + room * weights.round
  | .any | .atEnd | .lit _ | .escapedChar _ | .shorthand _ | .set _ => Nat.le_add_right _ _
  | @Atom.group room _ _ body _ => by
    have inner := heaviest_choice_le (Branches.heaviest_le weights body)
    rw [heaviest, Nat.add_one_mul, Weights.round]
    rw [Weights.round] at inner
    omega
  | @Atom.bracketed room _ _ body => by
    have inner := heaviest_choice_le (Branches.heaviest_le weights body)
    rw [Nat.add_one_mul, Weights.round]
    rw [Weights.round] at inner
    omega

theorem Item.heaviest_le (weights : Weights) {room : Nat} {text : List Char} {items : List Regex} :
    Item room text items → ∀ item ∈ items,
      item.heaviest weights ≤ weights.leaf + room * weights.round + weights.rep
  | .once atom => fun _ piece =>
    Nat.le_add_right_of_le
      (Nat.le_trans (heaviest_le_of_mem_pieces piece) (Atom.heaviest_le weights atom))
  | .greedy _ atom | .lazy _ atom => by
    have body := Atom.heaviest_le weights atom
    intro item only
    rw [List.mem_singleton.1 only, heaviest]
    omega

theorem Items.heaviest_le (weights : Weights) {room : Nat} {text : List Char} {items : List Regex} :
    Items room text items → ∀ item ∈ items,
      item.heaviest weights ≤ weights.leaf + room * weights.round + weights.rep
  | .nil => fun _ member => absurd member List.not_mem_nil
  | .cons first others _ => fun item member =>
    (List.mem_append.1 member).elim (Item.heaviest_le weights first item)
      (Items.heaviest_le weights others item)

theorem Branches.heaviest_le (weights : Weights) {room : Nat} {text : List Char}
    {branches : List Regex} : Branches room text branches → ∀ branch ∈ branches,
      branch.heaviest weights ≤
        weights.leaf + room * weights.round + weights.rep + weights.cat
  | .one last => fun branch only => by
    rw [List.mem_singleton.1 only]
    exact heaviest_sequence_le (Items.heaviest_le weights last)
  | .cons first others => fun branch member => by
    cases List.mem_cons.1 member with
    | inl here =>
      rw [here]
      exact heaviest_sequence_le (Items.heaviest_le weights first)
    | inr later => exact Branches.heaviest_le weights others branch later

end

theorem Pattern.heaviest_le (weights : Weights) {text : List Char} {regex : Regex}
    (derived : Pattern text regex) : regex.heaviest weights ≤
      weights.leaf + maxDepth * weights.round + weights.rep + weights.cat + weights.alt := by
  obtain ⟨body⟩ := derived
  exact heaviest_choice_le (body.heaviest_le weights)

/-- One round of groups has four levels: a group, a repetition, a sequence and a choice. -/
theorem Pattern.levels_le {text : List Char} {regex : Regex} (derived : Pattern text regex) :
    regex.levels ≤ 4 * (maxDepth + 1) := by
  have most := derived.heaviest_le ⟨1, 1, 1, 1, 1⟩
  simp only [Weights.round] at most
  rw [levels]
  omega

theorem Pattern.groupNesting_le {text : List Char} {regex : Regex} (derived : Pattern text regex) :
    regex.groupNesting ≤ maxDepth := by
  have most := derived.heaviest_le ⟨0, 1, 0, 0, 0⟩
  simp only [Weights.round] at most
  rw [groupNesting]
  omega

/-! ### No more room than needed -/

theorem Item.mono {room more : Nat} {text : List Char} {items : List Regex} (le : room ≤ more)
    (derived : Item room text items) : Item more text items := by
  have wide := derived.weaken (more - room)
  rwa [Nat.add_sub_cancel' le] at wide

theorem Items.mono {room more : Nat} {text : List Char} {items : List Regex} (le : room ≤ more)
    (derived : Items room text items) : Items more text items := by
  have wide := derived.weaken (more - room)
  rwa [Nat.add_sub_cancel' le] at wide

theorem Branches.mono {room more : Nat} {text : List Char} {branches : List Regex}
    (le : room ≤ more) (derived : Branches room text branches) : Branches more text branches := by
  have wide := derived.weaken (more - room)
  rwa [Nat.add_sub_cancel' le] at wide

mutual

/-- What is derived with some room is derived with as much as its parentheses need. -/
theorem Atom.tight {room : Nat} {text : List Char} {regex : Regex} :
    Atom room text regex → ∃ height, Nests text height ∧ Atom height text regex
  | .any => ⟨0, nests_singleton (by decide), .any⟩
  | .atEnd => ⟨0, nests_singleton (by decide), .atEnd⟩
  | .lit plain => ⟨0, nests_singleton (by simp_all [reserved]), .lit plain⟩
  | .escapedChar escape => ⟨0, nests_escape _, .escapedChar escape⟩
  | .shorthand short => ⟨0, nests_escape _, .shorthand short⟩
  | .set items => ⟨0, items.nests, .set items⟩
  | .group body capturing =>
    have ⟨height, nests, tight⟩ := Branches.tight body
    ⟨height + 1, nests.parenthesised, .group tight capturing⟩
  | .bracketed body =>
    have ⟨height, nests, tight⟩ := Branches.tight body
    ⟨height + 1, nests.bracketed, .bracketed tight⟩

theorem Item.tight {room : Nat} {text : List Char} {items : List Regex} :
    Item room text items → ∃ height, Nests text height ∧ Item height text items
  | .once atom =>
    have ⟨height, nests, tight⟩ := Atom.tight atom
    ⟨height, nests, .once tight⟩
  | .greedy quantifier atom =>
    have ⟨height, nests, tight⟩ := Atom.tight atom
    have sign : Nests [Quantifier.sign quantifier] 0 :=
      nests_singleton (by cases quantifier <;> decide)
    ⟨height, by simpa using nests.append sign, .greedy quantifier tight⟩
  | .lazy quantifier atom =>
    have ⟨height, nests, tight⟩ := Atom.tight atom
    have signs : Nests [Quantifier.sign quantifier, '?'] 0 :=
      (nests_singleton (by cases quantifier <;> decide)).append (nests_singleton (by decide))
    ⟨height, by simpa using nests.append signs, .lazy quantifier tight⟩

theorem Items.tight {room : Nat} {text : List Char} {items : List Regex} :
    Items room text items → ∃ height, Nests text height ∧ Items height text items
  | .nil => ⟨0, nests_nil, .nil⟩
  | .cons first others apart => by
    obtain ⟨height, nests, tight⟩ := Item.tight first
    obtain ⟨other, behind, tight'⟩ := Items.tight others
    exact ⟨max height other, nests.append behind,
      .cons (tight.mono (Nat.le_max_left ..)) (tight'.mono (Nat.le_max_right ..)) apart⟩

theorem Branches.tight {room : Nat} {text : List Char} {branches : List Regex} :
    Branches room text branches → ∃ height, Nests text height ∧ Branches height text branches
  | .one last =>
    have ⟨height, nests, tight⟩ := Items.tight last
    ⟨height, nests, .one tight⟩
  | .cons first others => by
    obtain ⟨height, nests, tight⟩ := Items.tight first
    obtain ⟨other, behind, tight'⟩ := Branches.tight others
    have bar : Nests ['|'] 0 := nests_singleton (by decide)
    exact ⟨max height other, by simpa using nests.append (bar.append behind),
      .cons (tight.mono (Nat.le_max_left ..)) (tight'.mono (Nat.le_max_right ..))⟩

end

/-- A pattern is derived with as much room as its parentheses need, or with more. -/
theorem exists_branches_of_parse {body : String} {regex : Regex} (parsed : parse body = .ok regex)
    (room : Nat) (enough : nestingDepth body.toList ≤ room) :
    ∃ branches, Branches room body.toList branches := by
  obtain ⟨derived⟩ := Pattern.of_parse parsed
  obtain ⟨height, nests, tight⟩ := derived.tight
  rw [nests.nestingDepth_eq] at enough
  exact ⟨_, tight.mono enough⟩

end Grammar

/-! ### Groups that have been closed -/

/-- A text in parentheses, capturing or not. -/
def parenthesised (capturing : Bool) (body : List Char) : List Char :=
  if capturing then '(' :: (body ++ [')']) else '(' :: '?' :: ':' :: (body ++ [')'])

namespace Reading

open Grammar

variable {reading : Reading}

/-- A pattern in parentheses can be read as soon as there is room for the groups in it, and leaves
the groups around it as they were. -/
theorem readAll_parenthesised (closed : reading.mode.Closed) {body : String} {regex : Regex}
    (parsed : Regex.parse body = .ok regex)
    (room : reading.enclosing.length + nestingDepth body.toList < maxDepth) (capturing : Bool)
    (place : Nat) : ∃ after,
      reading.readAll place (parenthesised capturing body.toList) = .ok after ∧
        after.mode.Closed ∧ after.enclosing = reading.enclosing := by
  obtain ⟨branches, derived⟩ := exists_branches_of_parse parsed
    (maxDepth - reading.enclosing.length - 1) (by omega)
  have noQuery : ∀ tail : List Char, body.toList ≠ '?' :: tail := by
    intro tail query
    have refused : Regex.parse body = .error (.missingOperand 0) := by
      rw [Regex.parse, query]
      rfl
    rw [refused] at parsed
    cases parsed
  obtain ⟨item, atom⟩ : ∃ item, Atom (maxDepth - reading.enclosing.length - 1 + 1)
      (parenthesised capturing body.toList) item := by
    cases capturing with
    | true => exact ⟨_, .group derived noQuery⟩
    | false => exact ⟨_, .bracketed derived⟩
  have reads := (Item.once atom).reads reading.settle place (settle_mode closed)
    (by rw [settle_enclosing]; omega)
  obtain ⟨after, read, closed', settled⟩ := reads.of_settle closed fun c tail begins => by
    cases capturing <;> (obtain ⟨rfl, -⟩ := List.cons.inj begins; decide)
  refine ⟨after, read, closed', ?_⟩
  rw [← settle_enclosing after, settled, ← settle_enclosing reading]

/-- However many groups have been closed, the next one has as much room as the first. -/
theorem readAll_siblings (siblings : List (Bool × String)) {reading : Reading}
    (closed : reading.mode.Closed)
    (fits : ∀ sibling ∈ siblings, (∃ regex, Regex.parse sibling.2 = .ok regex) ∧
      reading.enclosing.length + nestingDepth sibling.2.toList < maxDepth) (place : Nat) :
    ∃ after, reading.readAll place
        (siblings.flatMap fun sibling => parenthesised sibling.1 sibling.2.toList) = .ok after ∧
      after.mode.Closed ∧ after.enclosing = reading.enclosing := by
  induction siblings generalizing reading place with
  | nil => exact ⟨reading, rfl, closed, rfl⟩
  | cons sibling rest ih =>
    obtain ⟨⟨regex, parsed⟩, room⟩ := fits sibling (List.mem_cons_self ..)
    obtain ⟨middle, read, closed', same⟩ :=
      readAll_parenthesised closed parsed room sibling.1 place
    have others := fun other member => fits other (List.mem_cons_of_mem sibling member)
    rw [← same] at others
    obtain ⟨after, onwards, closed'', same'⟩ := ih closed' others
      (place + utf8Length (parenthesised sibling.1 sibling.2.toList))
    refine ⟨after, ?_, closed'', same'.trans same⟩
    rw [List.flatMap_cons, readAll_append_of_ok read, onwards]

end Reading

end TaggedRegex
