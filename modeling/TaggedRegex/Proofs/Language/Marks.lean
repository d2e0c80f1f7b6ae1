import TaggedRegex.Proofs.Language.Crossings
import TaggedRegex.Proofs.Language.Spelling
import TaggedRegex.Proofs.Trail.Basic

set_option autoImplicit false

/-!
Marks. While an expression matches a word its groups begin and end; where they may do so is said
here for the expression, without an automaton.
-/

namespace TaggedRegex

/-- A tag, and how much of the input has been read where it stands. -/
structure Mark where
  tag : Tag
  consumed : Nat
  deriving DecidableEq

/-- Marks in the order in which they are passed. -/
abbrev Marking := List Mark

namespace Marking

/-- The places at which a tag stands, in order. -/
def places (marking : Marking) (tag : Tag) : List Nat :=
  (marking.filter fun mark => mark.tag = tag).map Mark.consumed

/-- Every group begins as often as it ends. -/
def Balanced (marking : Marking) : Prop :=
  ∀ group, (marking.places ⟨group, .opening⟩).length = (marking.places ⟨group, .closing⟩).length

/-- Where a group begins and where it ends, each time. -/
def extents (marking : Marking) (group : Nat) : List (Nat × Nat) :=
  (marking.places ⟨group, .opening⟩).zip (marking.places ⟨group, .closing⟩)

/-- What is reported of a group. -/
def spans (marking : Marking) (group : Nat) : List Span :=
  (marking.extents group).map fun (first, limit) => ⟨first, (limit : Int) - 1⟩

@[simp] theorem places_nil (tag : Tag) : places [] tag = [] := rfl

@[simp] theorem places_append (first second : Marking) (tag : Tag) :
    places (first ++ second) tag = first.places tag ++ second.places tag := by
  simp only [places, List.filter_append, List.map_append]

theorem places_cons (mark : Mark) (rest : Marking) (tag : Tag) :
    places (mark :: rest) tag =
      (if mark.tag = tag then [mark.consumed] else []) ++ rest.places tag := by
  by_cases here : mark.tag = tag <;> simp [places, here]

/-- A tag of another group has no place. -/
theorem places_eq_nil {marking : Marking} {tag : Tag} (absent : ∀ mark ∈ marking, mark.tag ≠ tag) :
    marking.places tag = [] := by
  simpa [places] using absent

theorem balanced_nil : Balanced [] := fun _ => rfl

theorem Balanced.append {first second : Marking} (early : first.Balanced)
    (late : second.Balanced) : Balanced (first ++ second) := by
  intro group
  rw [places_append, places_append, List.length_append, List.length_append, early group, late group]

/-- If the first marks leave no group open, nothing is paired across. -/
theorem Balanced.extents_append {first : Marking} (early : first.Balanced) (second : Marking)
    (group : Nat) :
    extents (first ++ second) group = first.extents group ++ second.extents group := by
  simp only [extents, places_append, List.zip_append (early group)]

/-- Some marks between the two marks of a group. -/
def wrap (number first : Nat) (marking : Marking) (limit : Nat) : Marking :=
  ⟨⟨number, .opening⟩, first⟩ :: marking ++ [⟨⟨number, .closing⟩, limit⟩]

theorem places_wrap (number first : Nat) (marking : Marking) (limit group : Nat)
    (boundary : Boundary) :
    (marking.wrap number first limit).places ⟨group, boundary⟩ =
      (if boundary = .opening ∧ number = group then [first] else []) ++
        marking.places ⟨group, boundary⟩ ++
          if boundary = .closing ∧ number = group then [limit] else [] := by
  rw [wrap, List.cons_append, places_cons, places_append, places_cons, places_nil,
    List.append_nil, List.append_assoc]
  cases boundary <;> simp

theorem Balanced.wrap {marking : Marking} (balanced : marking.Balanced) (number first limit : Nat) :
    (marking.wrap number first limit).Balanced := by
  intro group
  rw [places_wrap, places_wrap]
  by_cases own : number = group <;> simp [own, balanced group]

/-- Every mark stands at one of the places of its tag. -/
theorem mem_places {marking : Marking} {mark : Mark} (member : mark ∈ marking) :
    mark.consumed ∈ marking.places mark.tag := by
  apply List.mem_map_of_mem
  simpa using member

/-- A group that is not marked between its own marks has one place. -/
theorem places_wrap_self {marking : Marking} {number : Nat} (first limit : Nat)
    (absent : ∀ mark ∈ marking, mark.tag.group ≠ number) :
    (marking.wrap number first limit).places ⟨number, .opening⟩ = [first] ∧
      (marking.wrap number first limit).places ⟨number, .closing⟩ = [limit] := by
  have none : ∀ boundary, marking.places ⟨number, boundary⟩ = [] := by
    intro boundary
    apply places_eq_nil
    intro mark member same
    exact absent mark member (congrArg Tag.group same)
  simp [places_wrap, none]

theorem extents_wrap_self {marking : Marking} {number : Nat} (first limit : Nat)
    (absent : ∀ mark ∈ marking, mark.tag.group ≠ number) :
    (marking.wrap number first limit).extents number = [(first, limit)] := by
  obtain ⟨begins, ends⟩ := places_wrap_self first limit absent
  rw [extents, begins, ends]
  rfl

theorem extents_wrap_of_ne {number group : Nat} (other : number ≠ group) (first limit : Nat)
    (marking : Marking) :
    (marking.wrap number first limit).extents group = marking.extents group := by
  simp [extents, places_wrap, other]

end Marking

namespace Trail

/-- The tags crossed, and where. -/
def marks (trail : Trail) : Marking :=
  trail.filterMap fun crossing => crossing.edge.tag.map fun tag => ⟨tag, crossing.consumed⟩

@[simp] theorem marks_nil : marks [] = [] := rfl

@[simp] theorem marks_append (first second : Trail) :
    marks (first ++ second) = first.marks ++ second.marks := List.filterMap_append ..

theorem marks_cons_untagged {edge : Edge} (untagged : edge.tag = none) (consumed : Nat)
    (rest : Trail) : marks (⟨edge, consumed⟩ :: rest) = rest.marks := by
  simp [marks, untagged]

theorem marks_cons_tagged {edge : Edge} {tag : Tag} (tagged : edge.tag = some tag)
    (consumed : Nat) (rest : Trail) :
    marks (⟨edge, consumed⟩ :: rest) = ⟨tag, consumed⟩ :: rest.marks := by
  simp [marks, tagged]

/-- Between the two edges of a group lie the marks that its two marks enclose. -/
theorem marks_enclose {opening closing : Edge} {number : Nat}
    (openingTag : opening.tag = some ⟨number, .opening⟩)
    (closingTag : closing.tag = some ⟨number, .closing⟩) (first limit : Nat) (inside : Trail) :
    marks (⟨opening, first⟩ :: inside ++ [⟨closing, limit⟩]) =
      inside.marks.wrap number first limit := by
  rw [marks_append, marks_cons_tagged openingTag, marks_cons_tagged closingTag]
  rfl

/-- The marks say where every tag is crossed. -/
theorem crossings_eq_places (trail : Trail) (tag : Tag) :
    trail.crossings tag = trail.marks.places tag := by
  induction trail with
  | nil => rfl
  | cons crossing rest ih =>
    obtain ⟨edge, consumed⟩ := crossing
    rw [crossings_cons, ih]
    cases tagged : edge.tag with
    | none =>
      rw [marks_cons_untagged tagged]
      rfl
    | some other =>
      rw [marks_cons_tagged tagged, Marking.places_cons]
      simp only [Option.some.injEq]

theorem balanced_iff_marks (trail : Trail) : trail.Balanced ↔ trail.marks.Balanced := by
  simp only [Balanced, Closed, Marking.Balanced, crossings_eq_places]

theorem spans_eq_marks (trail : Trail) (group : Group) :
    trail.spans group = trail.marks.spans group.number := by
  rw [spans, crossings_eq_places, crossings_eq_places]
  rfl

end Trail

/-- The expression, its groups numbered from `number` on, matches the word when `consumed`
characters lie before it and `behind` follows it, and its groups begin and end at these marks. -/
inductive Regex.Marks : Regex → Nat → Nat → List Char → List Char → Marking → Prop
  | any (number consumed : Nat) (c : Char) (behind : List Char) :
      Marks .any number consumed [c] behind []
  | lit (number consumed : Nat) (c : Char) (behind : List Char) :
      Marks (.lit c) number consumed [c] behind []
  | set {ranges : List CharRange} {range : CharRange} {c : Char} (number consumed : Nat)
      (behind : List Char) :
      range ∈ ranges → c ∈ range → Marks (.set ranges) number consumed [c] behind []
  | group {body : Regex} {number consumed : Nat} {word behind : List Char} {marking : Marking} :
      Marks body (number + 1) consumed word behind marking →
      Marks (.group body) number consumed word behind
        (marking.wrap number consumed (consumed + word.length))
  | starDone (greed : Greed) (body : Regex) (number consumed : Nat) (behind : List Char) :
      Marks (.rep .star greed body) number consumed [] behind []
  | starMore {greed : Greed} {body : Regex} {number consumed : Nat} {word more behind : List Char}
      {first second : Marking} :
      Marks body number consumed word (more ++ behind) first →
      Marks (.rep .star greed body) number (consumed + word.length) more behind second →
      Marks (.rep .star greed body) number consumed (word ++ more) behind (first ++ second)
  | plus {greed : Greed} {body : Regex} {number consumed : Nat} {word more behind : List Char}
      {first second : Marking} :
      Marks body number consumed word (more ++ behind) first →
      Marks (.rep .star greed body) number (consumed + word.length) more behind second →
      Marks (.rep .plus greed body) number consumed (word ++ more) behind (first ++ second)
  | optNone (greed : Greed) (body : Regex) (number consumed : Nat) (behind : List Char) :
      Marks (.rep .opt greed body) number consumed [] behind []
  | optSome {greed : Greed} {body : Regex} {number consumed : Nat} {word behind : List Char}
      {marking : Marking} :
      Marks body number consumed word behind marking →
      Marks (.rep .opt greed body) number consumed word behind marking
  | altHere {branch : Regex} {others : List Regex} {number consumed : Nat}
      {word behind : List Char} {marking : Marking} :
      Marks branch number consumed word behind marking →
      Marks (.alt (branch :: others)) number consumed word behind marking
  | altLater {branch : Regex} {others : List Regex} {number consumed : Nat}
      {word behind : List Char} {marking : Marking} :
      Marks (.alt others) (number + branch.groupCount) consumed word behind marking →
      Marks (.alt (branch :: others)) number consumed word behind marking
  | catNil (number consumed : Nat) (behind : List Char) :
      Marks (.cat []) number consumed [] behind []
  | catCons {item : Regex} {items : List Regex} {number consumed : Nat}
      {word more behind : List Char} {first second : Marking} :
      Marks item number consumed word (more ++ behind) first →
      Marks (.cat items) (number + item.groupCount) (consumed + word.length) more behind second →
      Marks (.cat (item :: items)) number consumed (word ++ more) behind (first ++ second)
  | atEnd (number consumed : Nat) : Marks .atEnd number consumed [] [] []

namespace Regex

variable {regex : Regex} {number consumed : Nat} {word behind : List Char} {marking : Marking}

/-- Without its marks a match is a word of the language. -/
theorem Marks.spells (marks : regex.Marks number consumed word behind marking) :
    regex.Spells word behind := by
  induction marks with
  | any _ _ c behind => exact .any c behind
  | lit _ _ c behind => exact .lit c behind
  | set _ _ behind listed inside => exact .set behind listed inside
  | group _ ih => exact .group ih
  | starDone greed body _ _ behind => exact .starDone greed body behind
  | starMore _ _ ihFirst ihMore => exact .starMore ihFirst ihMore
  | plus _ _ ihFirst ihMore => exact .plus ihFirst ihMore
  | optNone greed body _ _ behind => exact .optNone greed body behind
  | optSome _ ih => exact .optSome ih
  | altHere _ ih => exact .alt (List.mem_cons_self ..) ih
  | altLater _ ih =>
    cases ih with
    | alt listed spells => exact .alt (List.mem_cons_of_mem _ listed) spells
  | catNil _ _ behind => exact .catNil behind
  | catCons _ _ ihFirst ihMore => exact .catCons ihFirst ihMore
  | atEnd => exact .atEnd

theorem exists_marks_of_branch {branches : List Regex} {branch : Regex}
    (listed : branch ∈ branches)
    (marked : ∀ number, ∃ marking, branch.Marks number consumed word behind marking)
    (number : Nat) : ∃ marking, Marks (.alt branches) number consumed word behind marking := by
  induction branches generalizing number with
  | nil => cases listed
  | cons other others ih =>
    obtain rfl | later := List.mem_cons.1 listed
    · obtain ⟨marking, marks⟩ := marked number
      exact ⟨marking, .altHere marks⟩
    · obtain ⟨marking, marks⟩ := ih later (number + other.groupCount)
      exact ⟨marking, .altLater marks⟩

/-- A word of the language has marks, wherever it stands and however the groups are numbered. -/
theorem Spells.exists_marks (spells : regex.Spells word behind) (number consumed : Nat) :
    ∃ marking, regex.Marks number consumed word behind marking := by
  induction spells generalizing number consumed with
  | any c behind => exact ⟨[], .any number consumed c behind⟩
  | lit c behind => exact ⟨[], .lit number consumed c behind⟩
  | set behind listed inside => exact ⟨[], .set number consumed behind listed inside⟩
  | group _ ih =>
    obtain ⟨marking, marks⟩ := ih (number + 1) consumed
    exact ⟨_, .group marks⟩
  | starDone greed body behind => exact ⟨[], .starDone greed body number consumed behind⟩
  | @starMore _ _ word _ _ _ _ ihFirst ihMore =>
    obtain ⟨first, firstMarks⟩ := ihFirst number consumed
    obtain ⟨second, moreMarks⟩ := ihMore number (consumed + word.length)
    exact ⟨first ++ second, .starMore firstMarks moreMarks⟩
  | @plus _ _ word _ _ _ _ ihFirst ihMore =>
    obtain ⟨first, firstMarks⟩ := ihFirst number consumed
    obtain ⟨second, moreMarks⟩ := ihMore number (consumed + word.length)
    exact ⟨first ++ second, .plus firstMarks moreMarks⟩
  | optNone greed body behind => exact ⟨[], .optNone greed body number consumed behind⟩
  | optSome _ ih =>
    obtain ⟨marking, marks⟩ := ih number consumed
    exact ⟨marking, .optSome marks⟩
  | alt listed _ ih => exact exists_marks_of_branch listed (fun number => ih number consumed) number
  | catNil behind => exact ⟨[], .catNil number consumed behind⟩
  | @catCons item _ word _ _ _ _ ihFirst ihMore =>
    obtain ⟨first, firstMarks⟩ := ihFirst number consumed
    obtain ⟨second, moreMarks⟩ := ihMore (number + item.groupCount) (consumed + word.length)
    exact ⟨first ++ second, .catCons firstMarks moreMarks⟩
  | atEnd => exact ⟨[], .atEnd number consumed⟩

/-- Every group begins as often as it ends. -/
theorem Marks.balanced (marks : regex.Marks number consumed word behind marking) :
    marking.Balanced := by
  induction marks with
  | any | lit | set | starDone | optNone | catNil | atEnd => exact Marking.balanced_nil
  | group _ ih => exact ih.wrap _ _ _
  | starMore _ _ ihFirst ihMore => exact ihFirst.append ihMore
  | plus _ _ ihFirst ihMore => exact ihFirst.append ihMore
  | optSome _ ih => exact ih
  | altHere _ ih => exact ih
  | altLater _ ih => exact ih
  | catCons _ _ ihFirst ihMore => exact ihFirst.append ihMore

/-- Without the places that go with them, the tags of a match are those on a way through the
expression. -/
theorem Marks.crosses (marks : regex.Marks number consumed word behind marking) :
    regex.Crosses number (marking.map Mark.tag) := by
  induction marks with
  | any number => exact .any number
  | lit number _ c => exact .lit number c
  | set number _ _ listed _ => exact .set number listed
  | group _ ih =>
    simp only [Marking.wrap, List.cons_append, List.map_cons, List.map_append, List.map_nil]
    exact .group ih
  | starDone greed body number => exact .starDone greed body number
  | starMore _ _ ihFirst ihMore =>
    rw [List.map_append]
    exact .starMore ihFirst ihMore
  | plus _ _ ihFirst ihMore =>
    rw [List.map_append]
    exact .plus ihFirst ihMore
  | optNone greed body number => exact .optNone greed body number
  | optSome _ ih => exact .optSome ih
  | altHere _ ih => exact .altHere ih
  | altLater _ ih => exact .altLater ih
  | catNil number => exact .catNil number
  | catCons _ _ ihFirst ihMore =>
    rw [List.map_append]
    exact .catCons ihFirst ihMore
  | atEnd number => exact .atEnd number

/-- Only the groups of the expression itself are marked. -/
theorem Marks.own (marks : regex.Marks number consumed word behind marking) :
    ∀ mark ∈ marking, number ≤ mark.tag.group ∧ mark.tag.group < number + regex.groupCount :=
  fun mark member => marks.crosses.own mark.tag (List.mem_map_of_mem member)

/-- The marks inside a group are those of other groups. -/
theorem Marks.ne_of_outside (marks : regex.Marks (number + 1) consumed word behind marking) :
    ∀ mark ∈ marking, mark.tag.group ≠ number := by
  intro mark member same
  have bounds := marks.own mark member
  omega

/-- A group has one place, around the word that it matches. -/
theorem Marks.extents_group
    (marks : (Regex.group regex).Marks number consumed word behind marking) :
    marking.extents number = [(consumed, consumed + word.length)] := by
  cases marks with
  | group inside => exact Marking.extents_wrap_self _ _ inside.ne_of_outside

/-- The first mark of a group is its beginning, and there is no other one. -/
theorem Marks.head?_group (marks : (Regex.group regex).Marks number consumed word behind marking) :
    marking.head? = some ⟨⟨number, .opening⟩, consumed⟩ ∧
      ∀ mark ∈ marking, mark.tag = ⟨number, .opening⟩ → mark.consumed = consumed := by
  cases marks with
  | group inside =>
    refine ⟨rfl, ?_⟩
    intro mark member same
    have place := Marking.mem_places member
    rw [same, (Marking.places_wrap_self _ _ inside.ne_of_outside).1] at place
    exact List.mem_singleton.1 place

/-- Where there are no groups there are no marks. -/
theorem Marks.eq_nil (marks : regex.Marks number consumed word behind marking)
    (none : regex.groupCount = 0) : marking = [] := by
  apply List.eq_nil_iff_forall_not_mem.2
  intro mark member
  have bounds := marks.own mark member
  omega

end Regex

end TaggedRegex
