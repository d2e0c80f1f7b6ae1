import TaggedRegex.Proofs.Grammar.Basic

set_option autoImplicit false

/-!
Normal forms. Sequences are joined to those around them, and alternatives and sequences of one part
are that part. Printing an expression and reading it back gives its normal form, and what is read is
normal already.
-/

namespace TaggedRegex.Regex

mutual

/-- The expression with sequences spliced and single parts in the place of what is made of them. No
branches at all are the class without characters. -/
def norm : Regex → Regex
  | .any => .any
  | .lit c => .lit c
  | .set ranges => .set ranges
  | .group body => .group body.norm
  | .rep quantifier greed body => .rep quantifier greed body.norm
  | .alt [] => .set []
  | .alt (first :: rest) => choice (first.norm :: normAll rest)
  | .cat items => sequence (normPieces items)
  | .atEnd => .atEnd

def normAll : List Regex → List Regex
  | [] => []
  | regex :: rest => regex.norm :: normAll rest

/-- The items of some expressions in a row, each of them normal. -/
def normPieces : List Regex → List Regex
  | [] => []
  | regex :: rest => regex.norm.pieces ++ normPieces rest

end

/-- An expression that is its own normal form, and is made of items that are so. -/
structure Normal (regex : Regex) : Prop where
  whole : sequence regex.pieces = regex
  parts : ∀ item ∈ regex.pieces, item.norm = item ∧ item.pieces = [item]

theorem normal_of_item {regex : Regex} (single : regex.pieces = [regex])
    (same : regex.norm = regex) : regex.Normal := by
  refine ⟨by rw [single]; rfl, ?_⟩
  intro item member
  rw [single, List.mem_singleton] at member
  rw [member]
  exact ⟨same, single⟩

/-- Items that are no sequences are the parts of their sequence. -/
theorem pieces_sequence {items : List Regex} (single : ∀ item ∈ items, item.pieces = [item]) :
    (sequence items).pieces = items := by
  unfold sequence
  split
  · rename_i item
    exact single item (List.mem_singleton_self item)
  · rfl

theorem normal_sequence {items : List Regex}
    (normal : ∀ item ∈ items, item.norm = item ∧ item.pieces = [item]) :
    (sequence items).Normal := by
  have parts := pieces_sequence fun item member => (normal item member).2
  exact ⟨by rw [parts], by rw [parts]; exact normal⟩

theorem normPieces_eq_self {items : List Regex}
    (normal : ∀ item ∈ items, item.norm = item ∧ item.pieces = [item]) :
    normPieces items = items := by
  induction items with
  | nil => rfl
  | cons item rest ih =>
    have first := normal item (List.mem_cons_self ..)
    rw [normPieces, first.1, first.2, ih fun other member => normal other (.tail _ member)]
    rfl

theorem Normal.norm_eq {regex : Regex} (normal : regex.Normal) : regex.norm = regex := by
  cases regex with
  | cat items =>
    have parts : normPieces items = items := normPieces_eq_self normal.parts
    rw [norm, parts]
    exact normal.whole
  | any | lit | set | group | rep | alt | atEnd =>
    exact (normal.parts _ (List.mem_singleton_self _)).1

theorem normAll_eq_self {branches : List Regex} (normal : ∀ branch ∈ branches, branch.Normal) :
    normAll branches = branches := by
  induction branches with
  | nil => rfl
  | cons branch rest ih =>
    rw [normAll, (normal branch (List.mem_cons_self ..)).norm_eq,
      ih fun other member => normal other (.tail _ member)]

theorem normal_choice {branches : List Regex} (some : branches ≠ [])
    (normal : ∀ branch ∈ branches, branch.Normal) : (choice branches).Normal := by
  rcases branches with _ | ⟨first, _ | ⟨second, others⟩⟩
  · exact absurd rfl some
  · exact normal first (List.mem_singleton_self first)
  · refine normal_of_item rfl ?_
    exact congrArg choice (normAll_eq_self normal)

theorem Normal.group {body : Regex} (normal : body.Normal) : (Regex.group body).Normal :=
  normal_of_item rfl (by rw [norm, normal.norm_eq])

theorem Normal.rep {body : Regex} (normal : body.Normal) (quantifier : Quantifier) (greed : Greed) :
    (Regex.rep quantifier greed body).Normal :=
  normal_of_item rfl (by rw [norm, normal.norm_eq])

mutual

theorem normal_norm : (regex : Regex) → regex.norm.Normal
  | .any => normal_of_item rfl rfl
  | .lit c => normal_of_item rfl rfl
  | .set ranges => normal_of_item rfl rfl
  | .atEnd => normal_of_item rfl rfl
  | .group body => (normal_norm body).group
  | .rep quantifier greed body => (normal_norm body).rep quantifier greed
  | .alt [] => normal_of_item rfl rfl
  | .alt (first :: rest) => by
    refine normal_choice (List.cons_ne_nil _ _) fun branch member => ?_
    rcases List.mem_cons.1 member with rfl | later
    · exact normal_norm first
    · exact normal_normAll rest branch later
  | .cat items => normal_sequence (normal_normPieces items)

theorem normal_normAll : (branches : List Regex) → ∀ branch ∈ normAll branches, branch.Normal
  | [], _, member => absurd member List.not_mem_nil
  | first :: rest, branch, member => by
    rcases List.mem_cons.1 member with rfl | later
    · exact normal_norm first
    · exact normal_normAll rest branch later

theorem normal_normPieces : (items : List Regex) →
    ∀ item ∈ normPieces items, item.norm = item ∧ item.pieces = [item]
  | [], _, member => absurd member List.not_mem_nil
  | first :: rest, item, member => by
    rcases List.mem_append.1 member with here | later
    · exact (normal_norm first).parts item here
    · exact normal_normPieces rest item later

end

end TaggedRegex.Regex

namespace TaggedRegex.Grammar

open Regex

theorem Branches.ne_nil {room : Nat} {text : List Char} {branches : List Regex}
    (derived : Branches room text branches) : branches ≠ [] := by
  cases derived <;> exact List.cons_ne_nil _ _

mutual

/-- What the grammar derives is normal. -/
theorem Atom.normal {room : Nat} {text : List Char} {regex : Regex} :
    Atom room text regex → regex.Normal
  | .any => normal_of_item rfl rfl
  | .atEnd => normal_of_item rfl rfl
  | .lit _ => normal_of_item rfl rfl
  | .escapedChar _ => normal_of_item rfl rfl
  | .shorthand _ => normal_of_item rfl rfl
  | .set _ => normal_of_item rfl rfl
  | .group body _ => (normal_choice (Branches.ne_nil body) (Branches.normal body)).group
  | .bracketed body => normal_choice (Branches.ne_nil body) (Branches.normal body)

theorem Item.normal {room : Nat} {text : List Char} {items : List Regex} :
    Item room text items → ∀ item ∈ items, item.norm = item ∧ item.pieces = [item]
  | .once atom => (Atom.normal atom).parts
  | .greedy quantifier atom => ((Atom.normal atom).rep quantifier .greedy).parts
  | .lazy quantifier atom => ((Atom.normal atom).rep quantifier .lazy).parts

theorem Items.normal {room : Nat} {text : List Char} {items : List Regex} :
    Items room text items → ∀ item ∈ items, item.norm = item ∧ item.pieces = [item]
  | .nil, _, member => absurd member List.not_mem_nil
  | .cons first others _, item, member => by
    rcases List.mem_append.1 member with here | later
    · exact Item.normal first item here
    · exact Items.normal others item later

theorem Branches.normal {room : Nat} {text : List Char} {branches : List Regex} :
    Branches room text branches → ∀ branch ∈ branches, branch.Normal
  | .one last, branch, member => by
    rw [List.mem_singleton.1 member]
    exact normal_sequence (Items.normal last)
  | .cons first others, branch, member => by
    rcases List.mem_cons.1 member with rfl | later
    · exact normal_sequence (Items.normal first)
    · exact Branches.normal others branch later

end

theorem Pattern.normal {text : List Char} {regex : Regex} (derived : Pattern text regex) :
    regex.Normal := by
  obtain ⟨body⟩ := derived
  exact normal_choice body.ne_nil body.normal

end TaggedRegex.Grammar
