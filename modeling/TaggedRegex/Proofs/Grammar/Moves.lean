import TaggedRegex.Proofs.Grammar.Soundness

set_option autoImplicit false

/-!
Everything that one character can do to a reading, whether it moves it on or is refused: one case
for each decision that is taken, with what has been decided. Then the refusals alone.
-/

namespace TaggedRegex

open Grammar

/-- The place of the backslash that has just been read. -/
def ClassMode.backslash : ClassMode → Option Nat
  | .escape place | .dashEscape _ _ place => some place
  | .item | .bound _ _ | .dash _ _ => none

/-- The place of the backslash that has just been read. -/
def Mode.backslash : Mode → Option Nat
  | .escape place => some place
  | .inClass inner => inner.mode.backslash
  | .ready | .atom _ | .repeated _ _ | .complete _ | .opened _ | .openedQuery _
  | .classOpened _ => none

namespace ClassReading

/-- `c` is, or ends, the upper bound `hi` of a range from `lo`, which was found at `start`. -/
def Bounds (inner : ClassReading) (place : Nat) (c : Char) (start : Nat) (lo hi : Char) : Prop :=
  (inner.mode = .dash start lo ∧ c ≠ ']' ∧ c ≠ '\\' ∧ hi = c) ∨
  ∃ escape, inner.mode = .dashEscape start lo escape ∧ Escape.ofChar place c = .ok (.char hi)

/-- What becomes of a class at a character. -/
inductive Move (inner : ClassReading) (place : Nat) (c : Char) : Except ParseError Mode → Prop where
  | item (at_ : inner.mode = .item) : Move inner place c (.ok (inner.begin place c))
  | escaped {start : Nat} {meant : Char} (at_ : inner.mode = .escape start)
      (escape : Escape.ofChar place c = .ok (.char meant)) :
      Move inner place c (.ok (.inClass { inner with mode := .bound start meant }))
  | shorthand {start : Nat} {ranges : List CharRange} (at_ : inner.mode = .escape start)
      (escape : Escape.ofChar place c = .ok (.ranges ranges)) :
      Move inner place c (.ok (.inClass (inner.add ranges)))
  | dash {start : Nat} {lo : Char} (at_ : inner.mode = .bound start lo) (dash : c = '-') :
      Move inner place c (.ok (.inClass { inner with mode := .dash start lo }))
  | single {start : Nat} {lo : Char} (at_ : inner.mode = .bound start lo) (noDash : c ≠ '-') :
      Move inner place c (.ok ((inner.add [.single lo]).begin place c))
  | lastDash {start : Nat} {lo : Char} (at_ : inner.mode = .dash start lo) (bracket : c = ']') :
      Move inner place c (.ok (inner.add [.single lo, .single '-']).close)
  | dashEscape {start : Nat} {lo : Char} (at_ : inner.mode = .dash start lo)
      (backslash : c = '\\') :
      Move inner place c (.ok (.inClass { inner with mode := .dashEscape start lo place }))
  | range {start : Nat} {lo hi : Char} {range : CharRange}
      (bounds : inner.Bounds place c start lo hi)
      (ordered : CharRange.ofBounds? lo hi = some range) :
      Move inner place c (.ok (.inClass (inner.add [range])))
  | badRange {start : Nat} {lo hi : Char} (bounds : inner.Bounds place c start lo hi)
      (inverted : CharRange.ofBounds? lo hi = none) : Move inner place c (.error (.badRange start))
  | badBound {start escape : Nat} {lo : Char} {ranges : List CharRange}
      (at_ : inner.mode = .dashEscape start lo escape)
      (short : Escape.ofChar place c = .ok (.ranges ranges)) :
      Move inner place c (.error (.badRange start))
  | unexpected {start : Nat} {error : ParseError} (at_ : inner.mode.backslash = some start)
      (escape : Escape.ofChar place c = .error error) : Move inner place c (.error error)

theorem move_addRange {inner : ClassReading} {place start : Nat} {c lo hi : Char}
    (bounds : inner.Bounds place c start lo hi) :
    Move inner place c (inner.addRange start lo hi) := by
  unfold addRange
  split
  · rename_i range ordered
    exact .range bounds ordered
  · rename_i inverted
    exact .badRange bounds inverted

theorem move_step (inner : ClassReading) (place : Nat) (c : Char) :
    Move inner place c (inner.step place c) := by
  unfold step
  cases at_ : inner.mode with
  | item => exact .item at_
  | escape start =>
    dsimp only
    cases escape : Escape.ofChar place c with
    | ok meaning =>
      cases meaning with
      | char meant => exact .escaped at_ escape
      | ranges ranges => exact .shorthand at_ escape
    | error error => exact .unexpected (by rw [at_]; rfl) escape
  | bound start lo =>
    dsimp only
    split
    · rename_i dash
      exact .dash at_ dash
    · rename_i noDash
      exact .single at_ noDash
  | dash start lo =>
    dsimp only
    split
    · rename_i bracket
      exact .lastDash at_ bracket
    · rename_i noBracket
      split
      · rename_i backslash
        exact .dashEscape at_ backslash
      · rename_i noBackslash
        exact move_addRange (Or.inl ⟨at_, noBracket, noBackslash, rfl⟩)
  | dashEscape start lo escaped =>
    dsimp only
    cases escape : Escape.ofChar place c with
    | ok meaning =>
      cases meaning with
      | char hi => exact move_addRange (Or.inr ⟨escaped, at_, escape⟩)
      | ranges ranges => exact .badBound at_ escape
    | error error => exact .unexpected (by rw [at_]; rfl) escape

end ClassReading

namespace Reading

/-- The reading as `c` finds it if an item may begin with `c`. -/
inductive Awaits (reading : Reading) (c : Char) : Reading → Prop where
  | closed (closed : reading.mode.Closed) (first : c ∈ signs → reading.mode = .ready) :
      Awaits reading c reading.settle
  | opened {start : Nat} (at_ : reading.mode = .opened start) (noQuery : c ≠ '?')
      (room : reading.enclosing.length ≠ maxDepth) :
      Awaits reading c ⟨.empty, ⟨start, true, reading.level⟩ :: reading.enclosing, .ready⟩

/-- What becomes of a reading at a character. -/
inductive Move (reading : Reading) (place : Nat) (c : Char) :
    Except ParseError Reading → Prop where
  | begin {base : Reading} {outcome : Except ParseError Reading} (awaits : reading.Awaits c base)
      (begun : base.begin place c = outcome) : Move reading place c outcome
  | quantified {item : Regex} {quantifier : Quantifier} (at_ : reading.mode = .atom item)
      (sign : c = Regex.Quantifier.sign quantifier) :
      Move reading place c (.ok { reading with mode := .repeated quantifier item })
  | lazy {quantifier : Quantifier} {body : Regex} (at_ : reading.mode = .repeated quantifier body)
      (query : c = '?') :
      Move reading place c (.ok { reading with mode := .complete (.rep quantifier .lazy body) })
  | quantifiedTwice (at_ : (∃ quantifier body, reading.mode = .repeated quantifier body ∧ c ≠ '?') ∨
        ∃ item, reading.mode = .complete item) (sign : c ∈ signs) :
      Move reading place c (.error (.unsupported place))
  | query {start : Nat} (at_ : reading.mode = .opened start) (query : c = '?') :
      Move reading place c (.ok { reading with mode := .openedQuery start })
  | bracketed {start : Nat} (at_ : reading.mode = .openedQuery start) (colon : c = ':')
      (room : reading.enclosing.length ≠ maxDepth) :
      Move reading place c
        (.ok ⟨.empty, ⟨start, false, reading.level⟩ :: reading.enclosing, .ready⟩)
  | tooDeep {start : Nat} (at_ : reading.mode = .opened start ∧ c ≠ '?' ∨
        reading.mode = .openedQuery start ∧ c = ':') (full : reading.enclosing.length = maxDepth) :
      Move reading place c (.error (.tooDeep start))
  | unknownGroup {start : Nat} (at_ : reading.mode = .openedQuery start) (noColon : c ≠ ':') :
      Move reading place c (.error (.unsupported start))
  | escapedChar {start : Nat} {meant : Char} (at_ : reading.mode = .escape start)
      (escape : Escape.ofChar place c = .ok (.char meant)) :
      Move reading place c (.ok { reading with mode := .atom (.lit meant) })
  | shorthand {start : Nat} {ranges : List CharRange} (at_ : reading.mode = .escape start)
      (escape : Escape.ofChar place c = .ok (.ranges ranges)) :
      Move reading place c (.ok { reading with mode := .atom (.set ranges) })
  | unexpected {start : Nat} {error : ParseError} (at_ : reading.mode.backslash = some start)
      (escape : Escape.ofChar place c = .error error) : Move reading place c (.error error)
  | negated {start : Nat} (at_ : reading.mode = .classOpened start) (caret : c = '^') :
      Move reading place c (.ok { reading with mode := .inClass ⟨start, true, [], .item⟩ })
  | first {start : Nat} (at_ : reading.mode = .classOpened start) (noCaret : c ≠ '^') :
      Move reading place c
        (.ok { reading with mode := ClassReading.begin ⟨start, false, [], .item⟩ place c })
  | inside {inner : ClassReading} {mode : Mode} (at_ : reading.mode = .inClass inner)
      (stepped : inner.step place c = .ok mode) : Move reading place c (.ok { reading with mode })
  | refusedInside {inner : ClassReading} {error : ParseError} (at_ : reading.mode = .inClass inner)
      (stepped : inner.step place c = .error error) : Move reading place c (.error error)

variable {reading : Reading} {place : Nat} {c : Char}

/-- A character that is not the sign of a quantifier, behind an item that may be the last one. -/
theorem move_begin (closed : reading.mode.Closed) (noSign : Quantifier.ofSign? c = none) :
    Move reading place c (reading.settle.begin place c) :=
  .begin (.closed closed fun sign =>
    absurd sign ((Quantifier.ofSign?_eq_none_iff c).1 noSign)) rfl

theorem mem_signs_of_isSome (sign : (Quantifier.ofSign? c).isSome) : c ∈ signs := by
  refine Decidable.byContradiction fun other => ?_
  rw [(Quantifier.ofSign?_eq_none_iff c).2 other] at sign
  cases sign

theorem enter_eq (reading : Reading) (start : Nat) (capturing : Bool) :
    reading.enclosing.length = maxDepth ∧
        reading.enter start capturing = .error (.tooDeep start) ∨
      reading.enclosing.length ≠ maxDepth ∧ reading.enter start capturing =
        .ok ⟨.empty, ⟨start, capturing, reading.level⟩ :: reading.enclosing, .ready⟩ := by
  unfold enter
  by_cases full : reading.enclosing.length = maxDepth
  · exact Or.inl ⟨full, if_pos full⟩
  · exact Or.inr ⟨full, if_neg full⟩

theorem move_step (reading : Reading) (place : Nat) (c : Char) :
    Move reading place c (reading.step place c) := by
  have settled : ∀ base, reading.settle = base → reading.mode.Closed →
      Quantifier.ofSign? c = none → Move reading place c (base.begin place c) := by
    rintro base rfl closed noSign
    exact move_begin closed noSign
  unfold Reading.settle at settled
  unfold step
  cases at_ : reading.mode with
  | ready =>
    have closed : reading.mode.Closed := closed_of_ready at_
    have awaits := Awaits.closed (c := c) closed fun _ => at_
    rw [settle_of_ready at_] at awaits
    exact .begin awaits rfl
  | atom item =>
    rw [at_] at settled
    dsimp only
    cases found : Quantifier.ofSign? c with
    | some quantifier => exact .quantified at_ (eq_sign_of_ofSign? found)
    | none => exact settled _ rfl trivial found
  | repeated quantifier body =>
    rw [at_] at settled
    dsimp only
    split
    · rename_i query
      exact .lazy at_ query
    · rename_i noQuery
      split
      · rename_i sign
        exact .quantifiedTwice (Or.inl ⟨quantifier, body, at_, noQuery⟩) (mem_signs_of_isSome sign)
      · rename_i noSign
        exact settled _ rfl trivial (Option.not_isSome_iff_eq_none.1 noSign)
  | complete item =>
    rw [at_] at settled
    dsimp only
    split
    · rename_i sign
      exact .quantifiedTwice (Or.inr ⟨item, at_⟩) (mem_signs_of_isSome sign)
    · rename_i noSign
      exact settled _ rfl trivial (Option.not_isSome_iff_eq_none.1 noSign)
  | opened start =>
    dsimp only
    split
    · rename_i query
      exact .query at_ query
    · rename_i noQuery
      obtain ⟨full, refused⟩ | ⟨room, entered⟩ := reading.enter_eq start true
      · rw [refused]
        exact .tooDeep (Or.inl ⟨at_, noQuery⟩) full
      · rw [entered]
        exact .begin (.opened at_ noQuery room) rfl
  | openedQuery start =>
    dsimp only
    split
    · rename_i colon
      obtain ⟨full, refused⟩ | ⟨room, entered⟩ := reading.enter_eq start false
      · rw [refused]
        exact .tooDeep (Or.inr ⟨at_, colon⟩) full
      · rw [entered]
        exact .bracketed at_ colon room
    · rename_i noColon
      exact .unknownGroup at_ noColon
  | escape start =>
    dsimp only
    cases escape : Escape.ofChar place c with
    | ok meaning =>
      cases meaning with
      | char meant => exact .escapedChar at_ escape
      | ranges ranges => exact .shorthand at_ escape
    | error error => exact .unexpected (by rw [at_]; rfl) escape
  | classOpened start =>
    dsimp only
    split
    · rename_i caret
      exact .negated at_ caret
    · rename_i noCaret
      exact .first at_ noCaret
  | inClass inner =>
    dsimp only
    cases stepped : inner.step place c with
    | ok mode => exact .inside at_ stepped
    | error error => exact .refusedInside at_ stepped

/-! ### Refusals -/

/-- A letter or a digit that means nothing behind a backslash. -/
theorem ofChar_eq_error {error : ParseError} (refused : Escape.ofChar place c = .error error) :
    error = .unexpectedChar place c ∧ Text.isAlphanumeric c = true := by
  unfold Escape.ofChar at refused
  split at refused <;> try cases refused
  split at refused
  · rename_i alphanumeric
    exact ⟨(Except.error.inj refused).symm, alphanumeric⟩
  · cases refused

/-- A character with which no item can begin. -/
theorem begin_eq_error {error : ParseError} (refused : reading.begin place c = .error error) :
    (error = .trailingParen place ∧ c = ')' ∧ reading.enclosing = []) ∨
      (error = .missingOperand place ∧ c ∈ signs) ∨ error = .unsupported place ∧ c = '^' := by
  unfold begin at refused
  split at refused <;> try cases refused
  · unfold leave at refused
    split at refused
    · rename_i outermost
      exact Or.inl ⟨(Except.error.inj refused).symm, rfl, outermost⟩
    · cases refused
  · exact Or.inr (Or.inl ⟨rfl, by decide⟩)
  · exact Or.inr (Or.inl ⟨rfl, by decide⟩)
  · exact Or.inr (Or.inl ⟨rfl, by decide⟩)
  · exact Or.inr (Or.inr ⟨rfl, rfl⟩)

/-- What stands before a character that an item may begin with, other than an item: the beginning
of a branch, or the parenthesis of a group that captures. -/
def Fresh (reading : Reading) : Prop :=
  reading.mode = .ready ∨
    ∃ start, reading.mode = .opened start ∧ reading.enclosing.length ≠ maxDepth

/-- Why a character is refused. -/
inductive Refusal (reading : Reading) (place : Nat) (c : Char) : ParseError → Prop where
  | trailingParen (closed : reading.mode.Closed) (paren : c = ')')
      (outermost : reading.enclosing = []) : Refusal reading place c (.trailingParen place)
  | missingOperand (sign : c ∈ signs) (fresh : reading.Fresh) :
      Refusal reading place c (.missingOperand place)
  | caret (caret : c = '^') (between : reading.mode.Closed ∨ reading.Fresh) :
      Refusal reading place c (.unsupported place)
  | quantifiedTwice (at_ : (∃ quantifier body, reading.mode = .repeated quantifier body ∧ c ≠ '?') ∨
        ∃ item, reading.mode = .complete item) (sign : c ∈ signs) :
      Refusal reading place c (.unsupported place)
  | tooDeep {start : Nat} (at_ : reading.mode = .opened start ∧ c ≠ '?' ∨
        reading.mode = .openedQuery start ∧ c = ':') (full : reading.enclosing.length = maxDepth) :
      Refusal reading place c (.tooDeep start)
  | unknownGroup {start : Nat} (at_ : reading.mode = .openedQuery start) (noColon : c ≠ ':') :
      Refusal reading place c (.unsupported start)
  | unexpectedChar {start : Nat} (escaping : reading.mode.backslash = some start)
      (meaningless : Escape.ofChar place c = .error (.unexpectedChar place c))
      (alphanumeric : Text.isAlphanumeric c = true) :
      Refusal reading place c (.unexpectedChar place c)
  | inverted {inner : ClassReading} {start : Nat} {lo hi : Char}
      (at_ : reading.mode = .inClass inner) (bounds : inner.Bounds place c start lo hi)
      (inverted : CharRange.ofBounds? lo hi = none) : Refusal reading place c (.badRange start)
  | badBound {inner : ClassReading} {start escape : Nat} {lo : Char} {ranges : List CharRange}
      (at_ : reading.mode = .inClass inner) (dash : inner.mode = .dashEscape start lo escape)
      (short : Escape.ofChar place c = .ok (.ranges ranges)) :
      Refusal reading place c (.badRange start)

theorem Refusal.of_escape {start : Nat} {error : ParseError}
    (escaping : reading.mode.backslash = some start)
    (refused : Escape.ofChar place c = .error error) : Refusal reading place c error := by
  obtain ⟨rfl, alphanumeric⟩ := ofChar_eq_error refused
  exact .unexpectedChar escaping refused alphanumeric

theorem refusal_of_step {error : ParseError} (refused : reading.step place c = .error error) :
    Refusal reading place c error := by
  have move := reading.move_step place c
  rw [refused] at move
  cases move with
  | begin awaits begun =>
    cases awaits with
    | closed closed first =>
      obtain ⟨rfl, paren, outermost⟩ | ⟨rfl, sign⟩ | ⟨rfl, caret⟩ := begin_eq_error begun
      · rw [settle_enclosing] at outermost
        exact .trailingParen closed paren outermost
      · exact .missingOperand sign (Or.inl (first sign))
      · exact .caret caret (Or.inl closed)
    | opened at_ noQuery room =>
      obtain ⟨rfl, -, outermost⟩ | ⟨rfl, sign⟩ | ⟨rfl, caret⟩ := begin_eq_error begun
      · cases outermost
      · exact .missingOperand sign (Or.inr ⟨_, at_, room⟩)
      · exact .caret caret (Or.inr (Or.inr ⟨_, at_, room⟩))
  | quantifiedTwice at_ sign => exact .quantifiedTwice at_ sign
  | tooDeep at_ full => exact .tooDeep at_ full
  | unknownGroup at_ noColon => exact .unknownGroup at_ noColon
  | unexpected at_ escape => exact .of_escape at_ escape
  | @refusedInside inner _ at_ stepped =>
    have move := inner.move_step place c
    rw [stepped] at move
    cases move with
    | badRange bounds inverted => exact .inverted at_ bounds inverted
    | badBound dash short => exact .badBound at_ dash short
    | unexpected escaped escape => exact .of_escape (by rw [at_]; exact escaped) escape

end Reading

end TaggedRegex
