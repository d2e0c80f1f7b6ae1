import TaggedRegex.Proofs.Grammar.Moves
import TaggedRegex.Proofs.Grammar.Outline

set_option autoImplicit false

/-!
The places that a reading remembers. What it knows of the open parentheses and brackets is the
outline of the text that has been read, and the places in what it has read of the last item count
from where the item begins.
-/

namespace TaggedRegex

open Grammar Reading

def ClassMode.surroundings : ClassMode → Surroundings
  | .item | .bound _ _ | .dash _ _ => .inClass
  | .escape _ | .dashEscape _ _ _ => .escapedInClass

namespace Mode

def surroundings : Mode → Surroundings
  | .ready | .atom _ | .repeated _ _ | .complete _ | .opened _ | .openedQuery _ => .plain
  | .escape _ => .escaped
  | .classOpened _ => .inClass
  | .inClass inner => inner.mode.surroundings

/-- The parenthesis of a group that may still turn out to capture nothing. -/
def parens : Mode → List Nat
  | .opened place | .openedQuery place => [place]
  | .ready | .atom _ | .repeated _ _ | .complete _ | .escape _ | .classOpened _ | .inClass _ => []

/-- The bracket of the class that is being read. -/
def bracket : Mode → Option Nat
  | .classOpened place => some place
  | .inClass inner => some inner.opener
  | .ready | .atom _ | .repeated _ _ | .complete _ | .opened _ | .openedQuery _ | .escape _ => none

theorem escaped_of_backslash {mode : Mode} {start : Nat} (backslash : mode.backslash = some start) :
    mode.surroundings = .escaped ∨ mode.surroundings = .escapedInClass := by
  cases mode with
  | escape => exact Or.inl rfl
  | inClass inner =>
    obtain ⟨opener, negated, ranges, last⟩ := inner
    cases last with
    | escape | dashEscape => exact Or.inr rfl
    | item | bound | dash => cases backslash
  | ready | atom | repeated | complete | opened | openedQuery | classOpened => cases backslash

end Mode

/-- The outline of the text up to `place`, as far as the reading knows it. -/
def Reading.outline (reading : Reading) (place : Nat) : Outline where
  surroundings := reading.mode.surroundings
  place
  parens := reading.mode.parens ++ reading.enclosing.map OpenGroup.place
  bracket := reading.mode.bracket

namespace ClassReading

variable (level : Level) (enclosing : List OpenGroup)

theorem outline_begin (inner : ClassReading) (place : Nat) (c : Char) :
    Reading.outline ⟨level, enclosing, inner.begin place c⟩ (place + c.utf8Size) =
      Outline.next ⟨.inClass, place, enclosing.map OpenGroup.place, some inner.opener⟩ c := by
  unfold begin
  split
  · rename_i bracket
    subst bracket
    rfl
  · rename_i noBracket
    split
    · rename_i backslash
      subst backslash
      rfl
    · rename_i noBackslash
      simp [Outline.next, Surroundings.next, noBracket, noBackslash, Reading.outline,
        Mode.surroundings, Mode.parens, Mode.bracket, ClassMode.surroundings]

/-- Between the brackets the outline goes on as the class does. -/
theorem outline_step {inner : ClassReading} {place : Nat} {c : Char} {mode : Mode}
    (success : inner.step place c = .ok mode) :
    Reading.outline ⟨level, enclosing, mode⟩ (place + c.utf8Size) =
      (Reading.outline ⟨level, enclosing, .inClass inner⟩ place).next c := by
  obtain ⟨opener, negated, ranges, last⟩ := inner
  have move := move_step ⟨opener, negated, ranges, last⟩ place c
  rw [success] at move
  cases move with
  | item at_ =>
    obtain rfl := at_
    exact outline_begin level enclosing _ place c
  | escaped at_ | shorthand at_ =>
    obtain rfl := at_
    rfl
  | dash at_ dash =>
    obtain rfl := at_
    subst dash
    rfl
  | single at_ noDash =>
    obtain rfl := at_
    exact outline_begin level enclosing _ place c
  | lastDash at_ bracket =>
    obtain rfl := at_
    subst bracket
    rfl
  | dashEscape at_ backslash =>
    obtain rfl := at_
    subst backslash
    rfl
  | range bounds ordered =>
    obtain ⟨at_, noBracket, noBackslash, rfl⟩ | ⟨escape, at_, -⟩ := bounds
    · obtain rfl := at_
      simp [Outline.next, Surroundings.next, noBracket, noBackslash, Reading.outline,
        Mode.surroundings, Mode.parens, Mode.bracket, ClassMode.surroundings, add]
    · obtain rfl := at_
      rfl

end ClassReading

namespace Reading

variable {reading next : Reading} {place : Nat} {c : Char}

theorem outline_begin (success : reading.begin place c = .ok next) :
    next.outline (place + c.utf8Size) =
      Outline.next ⟨.plain, place, reading.enclosing.map OpenGroup.place, none⟩ c := by
  unfold begin at success
  split at success <;> try (obtain rfl := Except.ok.inj success; rfl)
  · unfold leave at success
    split at success
    · cases success
    · rename_i group enclosing outer
      obtain rfl := Except.ok.inj success
      rw [outer]
      rfl
  · cases success
  · cases success
  · cases success
  · cases success
  · obtain rfl := Except.ok.inj success
    simp_all [Outline.next, Surroundings.next, Reading.outline, Mode.surroundings, Mode.parens,
      Mode.bracket]

theorem outline_of_closed (closed : reading.mode.Closed) (place : Nat) :
    reading.outline place = ⟨.plain, place, reading.enclosing.map OpenGroup.place, none⟩ := by
  obtain ⟨level, enclosing, mode⟩ := reading
  cases mode with
  | ready | atom | repeated | complete => rfl
  | opened | openedQuery | escape | classOpened | inClass => exact closed.elim

/-- Every character changes the outline as it changes that of the text. -/
theorem outline_step (success : reading.step place c = .ok next) :
    next.outline (place + c.utf8Size) = (reading.outline place).next c := by
  have move := reading.move_step place c
  rw [success] at move
  cases move with
  | begin awaits begun =>
    rw [outline_begin begun]
    cases awaits with
    | closed closed first => rw [outline_of_closed closed, settle_enclosing]
    | opened at_ noQuery room => rw [outline, at_]; rfl
  | quantified at_ sign =>
    rw [outline, outline, at_, sign]
    rename_i quantifier
    cases quantifier <;> rfl
  | lazy at_ query | query at_ query =>
    rw [outline, outline, at_, query]
    rfl
  | bracketed at_ colon room =>
    rw [outline, outline, at_, colon]
    rfl
  | escapedChar at_ escape | shorthand at_ escape =>
    rw [outline, outline, at_]
    rfl
  | negated at_ caret =>
    rw [outline, outline, at_, caret]
    rfl
  | first at_ noCaret =>
    rw [ClassReading.outline_begin reading.level reading.enclosing _ place c, outline, at_]
    rfl
  | inside at_ stepped =>
    rw [ClassReading.outline_step reading.level reading.enclosing stepped, outline, outline, at_]

/-! ### Whole texts -/

/-- Reading the text from its beginning comes to this reading. -/
def Reads (text : List Char) (reading : Reading) : Prop := start.readAll 0 text = .ok reading

theorem reads_append {first second : List Char} {last : Reading} :
    Reads (first ++ second) last ↔ ∃ middle, Reads first middle ∧
      middle.readAll (utf8Length first) second = .ok last := by
  unfold Reads
  rw [readAll_append, Nat.zero_add]
  cases start.readAll 0 first with
  | error error =>
    constructor
    · intro success
      cases success
    · rintro ⟨middle, success, -⟩
      cases success
  | ok middle =>
    constructor
    · exact fun success => ⟨middle, rfl, success⟩
    · rintro ⟨other, same, success⟩
      obtain rfl := Except.ok.inj same
      exact success

theorem reads_append_singleton {text : List Char} {last : Reading} :
    Reads (text ++ [c]) last ↔ ∃ middle, Reads text middle ∧
      middle.step (utf8Length text) c = .ok last := by
  rw [reads_append]
  simp only [readAll_singleton]

theorem Reads.derived {text : List Char} (reads : Reads text reading) : reading.Derived text :=
  readAll_derived start_derived reads

/-- What is known after reading a text is known from its outline. -/
theorem Reads.outline_eq {text : List Char} (reads : Reads text reading) :
    reading.outline (utf8Length text) = TaggedRegex.outline text := by
  induction text using List.reverseRecOn generalizing reading with
  | nil =>
    obtain rfl := Except.ok.inj reads
    rfl
  | append_singleton text c ih =>
    obtain ⟨middle, early, stepped⟩ := reads_append_singleton.1 reads
    rw [outline_append_singleton, ← ih early, ← outline_step stepped, utf8Length_append]
    rfl

theorem Reads.surroundings_eq {text : List Char} (reads : Reads text reading) :
    surroundings text = reading.mode.surroundings := by
  rw [← outline_surroundings, ← reads.outline_eq]
  rfl

theorem Reads.plain_of_closed {text : List Char} (reads : Reads text reading)
    (closed : reading.mode.Closed) : surroundings text = .plain :=
  reads.surroundings_eq.trans (congrArg Outline.surroundings (outline_of_closed closed 0))

theorem Reads.parens_of_closed {text : List Char} (reads : Reads text reading)
    (closed : reading.mode.Closed) :
    (TaggedRegex.outline text).parens = reading.enclosing.map OpenGroup.place := by
  rw [← reads.outline_eq, outline_of_closed closed]

/-- Beginnings of one text that are equally long are equal. -/
theorem append_inj_of_utf8Length {first second rest others : List Char}
    (same : first ++ rest = second ++ others) (length : utf8Length first = utf8Length second) :
    first = second ∧ rest = others := by
  induction first generalizing second with
  | nil =>
    cases second with
    | nil => exact ⟨rfl, same⟩
    | cons d tail =>
      have positive := d.utf8Size_pos
      simp only [utf8Length] at length
      omega
  | cons c tail ih =>
    cases second with
    | nil =>
      have positive := c.utf8Size_pos
      simp only [utf8Length] at length
      omega
    | cons d tail =>
      obtain ⟨rfl, behind⟩ := List.cons.inj same
      simp only [utf8Length, Nat.add_left_cancel_iff] at length
      obtain ⟨rfl, others⟩ := ih behind length
      exact ⟨rfl, others⟩

/-- Characters are refused at the first one that cannot go on. -/
theorem readAll_eq_error {text : List Char} {error : ParseError}
    (refused : reading.readAll place text = .error error) : ∃ before c rest middle,
      text = before ++ c :: rest ∧ reading.readAll place before = .ok middle ∧
        middle.step (place + utf8Length before) c = .error error := by
  induction text generalizing reading place with
  | nil => cases refused
  | cons c rest ih =>
    rw [readAll] at refused
    split at refused
    · rename_i next stepped
      obtain ⟨before, d, rest, middle, rfl, reads, refused⟩ := ih refused
      refine ⟨c :: before, d, rest, middle, rfl, (readAll_cons_of_ok stepped _).trans reads, ?_⟩
      rwa [Nat.add_assoc] at refused
    · rename_i other stepped
      obtain rfl := Except.error.inj refused
      exact ⟨[], c, rest, reading, rfl, rfl, stepped⟩

/-- A pattern is refused at one of its characters or at its end. -/
theorem of_parse_eq_error {pattern : String} {error : ParseError}
    (failed : Regex.parse pattern = .error error) :
    (∃ before c rest reading, pattern.toList = before ++ c :: rest ∧ Reads before reading ∧
      reading.step (utf8Length before) c = .error error) ∨
    ∃ reading, Reads pattern.toList reading ∧ reading.finish = .error error := by
  unfold Regex.parse at failed
  split at failed
  · rename_i reading reads
    exact Or.inr ⟨reading, reads, failed⟩
  · rename_i other refused
    obtain rfl := Except.error.inj failed
    obtain ⟨before, c, rest, reading, whole, reads, refused⟩ := readAll_eq_error refused
    rw [Nat.zero_add] at refused
    exact Or.inl ⟨before, c, rest, reading, whole, reads, refused⟩

end Reading

end TaggedRegex
