import TaggedRegex.Proofs.CharRange.Alphabet
import TaggedRegex.Proofs.Grammar.Beginnings

set_option autoImplicit false

/-!
Which texts are beginnings of patterns. A reading can be completed by closing what is open, unless
it has just opened one group more than there may be; so a pattern that is refused can still become
one exactly if it is refused at its end, for another reason than that.
-/

namespace TaggedRegex

open Grammar

namespace Reading

/-- What a reading comes to at the end of the text. -/
inductive Ending (reading : Reading) : Except ParseError Regex → Prop where
  | complete (closed : reading.mode.Closed) (outermost : reading.enclosing = []) :
      Ending reading (.ok reading.settle.level.regex)
  | openGroup {group : OpenGroup} {outer : List OpenGroup} (closed : reading.mode.Closed)
      (inside : reading.enclosing = group :: outer) :
      Ending reading (.error (.unclosedGroup group.place))
  | opened {start : Nat} (at_ : reading.mode = .opened start)
      (room : reading.enclosing.length ≠ maxDepth) : Ending reading (.error (.unclosedGroup start))
  | tooDeep {start : Nat} (at_ : reading.mode = .opened start)
      (full : reading.enclosing.length = maxDepth) : Ending reading (.error (.tooDeep start))
  | query {start : Nat} (at_ : reading.mode = .openedQuery start) :
      Ending reading (.error (.unsupported start))
  | escape {start : Nat} (backslash : reading.mode.backslash = some start) :
      Ending reading (.error (.trailingEscape start))
  | inClass {start : Nat} (bracket : reading.mode.bracket = some start)
      (item : reading.mode.surroundings = .inClass) : Ending reading (.error (.unclosedClass start))

theorem ending_finish (reading : Reading) : reading.Ending reading.finish := by
  unfold finish
  cases at_ : reading.mode with
  | ready | atom | repeated | complete =>
    have closed : reading.mode.Closed := by
      rw [at_]
      trivial
    cases inside : reading.enclosing with
    | nil => exact .complete closed inside
    | cons group outer => exact .openGroup closed inside
  | opened start =>
    dsimp only
    obtain ⟨full, refused⟩ | ⟨room, entered⟩ := reading.enter_eq start true
    · rw [refused]
      exact .tooDeep at_ full
    · rw [entered]
      exact .opened at_ room
  | openedQuery start => exact .query at_
  | escape start => exact .escape (by rw [at_]; rfl)
  | classOpened start => exact .inClass (by rw [at_]; rfl) (by rw [at_]; rfl)
  | inClass inner =>
    dsimp only [ClassReading.unfinished]
    cases last : inner.mode with
    | escape start => exact .escape (by rw [at_, Mode.backslash, last]; rfl)
    | dashEscape place lo start => exact .escape (by rw [at_, Mode.backslash, last]; rfl)
    | item | bound | dash =>
      refine .inClass (by rw [at_]; rfl) ?_
      rw [at_, Mode.surroundings, last]
      rfl

/-- The reading can go on to the end of a pattern. -/
def Completes (reading : Reading) (place : Nat) : Prop :=
  ∃ more last regex, reading.readAll place more = .ok last ∧ last.finish = .ok regex

/-- A parenthesis has been read that opens one group more than there may be. -/
def Stuck (reading : Reading) : Prop :=
  (∃ start, reading.mode = .opened start ∨ reading.mode = .openedQuery start) ∧
    reading.enclosing.length = maxDepth

variable {reading next : Reading} {place : Nat} {c : Char}

theorem Completes.of_step (success : reading.step place c = .ok next)
    (completes : next.Completes (place + c.utf8Size)) : reading.Completes place := by
  obtain ⟨more, last, regex, reads, done⟩ := completes
  exact ⟨c :: more, last, regex, (readAll_cons_of_ok success more).trans reads, done⟩

/-- Closing parentheses complete a pattern in which nothing is half read. -/
theorem completes_of_closed (closed : reading.mode.Closed) (place : Nat) :
    reading.Completes place := by
  -- Every closing parenthesis leaves one group less open.
  generalize count : reading.enclosing.length = depth
  induction depth generalizing reading place with
  | zero =>
    exact ⟨[], reading, _, rfl, finish_of_closed closed (List.length_eq_zero_iff.1 count)⟩
  | succ depth ih =>
    obtain ⟨group, outer, inside⟩ := List.exists_cons_of_length_eq_add_one count
    have stepped := step_of_closed closed (c := ')') (by decide) place
    have left : reading.settle.begin place ')' = reading.settle.leave place := rfl
    rw [left, leave, settle_enclosing, inside] at stepped
    have closedAgain : Mode.Closed (.atom (if group.capturing then
        .group reading.settle.level.regex else reading.settle.level.regex)) := trivial
    rw [inside, List.length_cons] at count
    exact .of_step stepped (ih closedAgain _ (Nat.succ.inj count))

theorem completes_of_atom (level : Level) (enclosing : List OpenGroup) (item : Regex)
    (place : Nat) : Completes ⟨level, enclosing, .atom item⟩ place :=
  @completes_of_closed ⟨level, enclosing, .atom item⟩ trivial place

/-- A class is completed by its bracket, with something behind a backslash. As the upper bound of a
range the largest character is never wrong. -/
theorem completes_of_inClass {inner : ClassReading} (at_ : reading.mode = .inClass inner)
    (place : Nat) : reading.Completes place := by
  obtain ⟨level, enclosing, mode⟩ := reading
  obtain rfl := at_
  obtain ⟨opener, negated, ranges, last⟩ := inner
  -- Behind a complete item, and behind a dash, the bracket closes the class at once.
  have bracket : ∀ (ranges : List CharRange) (last : ClassMode) (place : Nat),
      last.surroundings = .inClass →
      Completes ⟨level, enclosing, .inClass ⟨opener, negated, ranges, last⟩⟩ place := by
    intro ranges last place item
    cases last with
    | item | bound | dash => exact .of_step (c := ']') rfl (completes_of_atom ..)
    | escape | dashEscape => cases item
  cases last with
  | item => exact bracket _ _ _ rfl
  | bound => exact bracket _ _ _ rfl
  | dash => exact bracket _ _ _ rfl
  | escape start => exact .of_step (c := '.') rfl (bracket _ (.bound start '.') _ rfl)
  | dashEscape start lo backslash =>
    have self : EscapedChar CharRange.all.hi CharRange.all.hi := .self _ (by decide +kernel)
    obtain ⟨range, ordered⟩ : ∃ range, CharRange.ofBounds? lo CharRange.all.hi = some range :=
      ⟨_, dif_pos (CharRange.mem_all lo).2⟩
    refine .of_step (c := CharRange.all.hi) ?_ (bracket (ranges ++ [range]) .item _ rfl)
    simp only [step, ClassReading.step, ofChar_escapedChar self, ClassReading.addRange, ordered]
    rfl

/-- A reading can be completed unless it is stuck. -/
theorem completes_of_not_stuck (free : ¬ reading.Stuck) (place : Nat) :
    reading.Completes place := by
  obtain ⟨level, enclosing, mode⟩ := reading
  cases mode with
  | ready => exact @completes_of_closed ⟨level, enclosing, .ready⟩ trivial place
  | atom item => exact completes_of_atom ..
  | repeated quantifier body =>
    exact @completes_of_closed ⟨level, enclosing, .repeated quantifier body⟩ trivial place
  | complete item => exact @completes_of_closed ⟨level, enclosing, .complete item⟩ trivial place
  | opened start =>
    have room : enclosing.length ≠ maxDepth := fun full => free ⟨⟨start, Or.inl rfl⟩, full⟩
    have entered : enter ⟨level, enclosing, .opened start⟩ start true = _ := if_neg room
    refine .of_step (c := ')') ?_ (completes_of_atom level enclosing (.group (.cat [])) _)
    simp only [step, entered]
    rfl
  | openedQuery start =>
    have room : enclosing.length ≠ maxDepth := fun full => free ⟨⟨start, Or.inr rfl⟩, full⟩
    have entered : enter ⟨level, enclosing, .openedQuery start⟩ start false = _ := if_neg room
    exact .of_step (c := ':') entered (@completes_of_closed ⟨.empty, _, .ready⟩ trivial _)
  | escape start => exact .of_step (c := '.') rfl (completes_of_atom ..)
  | classOpened start => exact .of_step (c := ']') rfl (completes_of_atom ..)
  | inClass inner => exact completes_of_inClass rfl place

theorem not_stuck_of_closed (closed : reading.mode.Closed) : ¬ reading.Stuck := by
  rintro ⟨⟨start, half | half⟩, -⟩ <;> rw [half] at closed <;> cases closed

theorem not_stuck_of_inClass (inClass : reading.mode.surroundings = .inClass) :
    ¬ reading.Stuck := by
  rintro ⟨⟨start, half | half⟩, -⟩ <;> rw [half] at inClass <;> cases inClass

theorem not_stuck_of_fresh (fresh : reading.Fresh) : ¬ reading.Stuck := by
  obtain ready | ⟨start, -, room⟩ := fresh
  · exact not_stuck_of_closed (closed_of_ready ready)
  · exact fun stuck => room stuck.2

theorem not_stuck_of_backslash {start : Nat} (backslash : reading.mode.backslash = some start) :
    ¬ reading.Stuck := by
  rintro ⟨⟨start, half | half⟩, -⟩ <;> rw [half] at backslash <;> cases backslash

/-- A question mark is all that a stuck reading can go on with, and it remains stuck. -/
theorem stuck_of_step (stuck : reading.Stuck) (success : reading.step place c = .ok next) :
    next.Stuck ∧ c = '?' := by
  obtain ⟨⟨start, half⟩, full⟩ := stuck
  have move := reading.move_step place c
  rw [success] at move
  cases move with
  | begin awaits begun =>
    cases awaits with
    | closed closed first =>
      exact absurd ⟨⟨start, half⟩, full⟩ (not_stuck_of_closed closed)
    | opened at_ noQuery room => exact absurd full room
  | query at_ query => exact ⟨⟨⟨_, Or.inr rfl⟩, full⟩, query⟩
  | bracketed at_ colon room => exact absurd full room
  | quantified at_ | lazy at_ | escapedChar at_ | shorthand at_ | negated at_ | first at_
  | inside at_ => rcases half with half | half <;> rw [half] at at_ <;> cases at_

theorem not_completes_of_stuck (stuck : reading.Stuck) (place : Nat) :
    ¬ reading.Completes place := by
  rintro ⟨more, last, regex, reads, done⟩
  induction more generalizing reading place with
  | nil =>
    obtain rfl := Except.ok.inj reads
    exact not_stuck_of_closed (of_finish_eq_ok done).1 stuck
  | cons c rest ih =>
    rw [readAll] at reads
    split at reads
    · rename_i next stepped
      exact ih (stuck_of_step stuck stepped).1 _ reads
    · cases reads

/-- The text is the beginning of a pattern. -/
def Completable (text : List Char) : Prop :=
  ∃ (more : List Char) (regex : Regex), Regex.parse (String.ofList (text ++ more)) = .ok regex

theorem parse_ofList_eq_ok_iff {text : List Char} {regex : Regex} :
    Regex.parse (String.ofList text) = .ok regex ↔
      ∃ last, Reads text last ∧ last.finish = .ok regex := by
  unfold Regex.parse Reads
  rw [String.toList_ofList]
  cases start.readAll 0 text with
  | ok last => exact ⟨fun done => ⟨last, rfl, done⟩, fun ⟨_, same, done⟩ =>
      Except.ok.inj same ▸ done⟩
  | error error => exact ⟨fun done => (by cases done), fun ⟨_, same, _⟩ => (by cases same)⟩

/-- A beginning of a pattern can be read. -/
theorem Completable.reads {text : List Char} (completable : Completable text) :
    ∃ reading, Reads text reading := by
  obtain ⟨more, regex, parsed⟩ := completable
  obtain ⟨last, reads, -⟩ := parse_ofList_eq_ok_iff.1 parsed
  obtain ⟨reading, early, -⟩ := reads_append.1 reads
  exact ⟨reading, early⟩

/-- What has been read is the beginning of a pattern unless the reading is stuck. -/
theorem Reads.completable_iff {text : List Char} (reads : Reads text reading) :
    Completable text ↔ ¬ reading.Stuck := by
  constructor
  · rintro ⟨more, regex, parsed⟩ stuck
    obtain ⟨last, whole, done⟩ := parse_ofList_eq_ok_iff.1 parsed
    obtain ⟨middle, early, late⟩ := reads_append.1 whole
    obtain rfl := Except.ok.inj (reads.symm.trans early)
    exact not_completes_of_stuck stuck _ ⟨more, last, regex, late, done⟩
  · intro free
    obtain ⟨more, last, regex, late, done⟩ := completes_of_not_stuck free (utf8Length text)
    have whole : Reads (text ++ more) last := reads_append.2 ⟨reading, reads, late⟩
    exact ⟨more, regex, parse_ofList_eq_ok_iff.2 ⟨last, whole, done⟩⟩

/-- There are never more groups open than there may be. -/
theorem Reads.depth_le {text : List Char} (reads : Reads text reading) :
    reading.enclosing.length ≤ maxDepth := by
  obtain ⟨settled, pending, -, nested, -⟩ := reads.derived
  cases inside : reading.enclosing with
  | nil => exact Nat.zero_le _
  | cons group outer =>
    rw [inside] at nested
    exact nested.1

/-- The groups around a parenthesis that has just been read are those open before it. -/
theorem Reads.parens_before {before sign : List Char} {start : Nat}
    (reads : Reads (before ++ sign) reading) (half : reading.mode.parens = [start])
    (paren : sign = ['('] ∨ sign = ['(', '?']) (plain : surroundings before = .plain) :
    (TaggedRegex.outline before).parens.length = reading.enclosing.length := by
  have parens := congrArg (fun outline => outline.parens.length) reads.outline_eq
  have opened : (TaggedRegex.outline (before ++ sign)).parens =
      (TaggedRegex.outline before).place :: (TaggedRegex.outline before).parens := by
    rw [← outline_surroundings] at plain
    rcases paren with rfl | rfl
    · rw [outline_append_singleton, Outline.next, plain]
      rfl
    · rw [TaggedRegex.outline, List.foldl_append, ← TaggedRegex.outline]
      simp [Outline.next, plain, Surroundings.next]
  rw [opened] at parens
  simp only [Reading.outline, half, List.length_append, List.length_cons, List.length_map,
    List.length_nil] at parens
  omega

/-- A text that ends in the beginning of a group. -/
theorem Reads.query {text : List Char} {start : Nat} (reads : Reads text reading)
    (at_ : reading.mode = .openedQuery start) : ∃ before, text = before ++ ['(', '?'] ∧
      start = utf8Length before ∧
      (TaggedRegex.outline before).parens.length = reading.enclosing.length := by
  have placed := reads.placed
  rw [at_] at placed
  obtain ⟨before, rfl, place, plain⟩ := placed
  have half : reading.mode.parens = [start] := by
    rw [at_]
    rfl
  exact ⟨before, rfl, place, reads.parens_before half (Or.inr rfl) plain⟩

/-- What is refused at a character is refused whatever follows. -/
theorem not_completable_of_step {before rest : List Char} {error : ParseError}
    (reads : Reads before reading) (refused : reading.step (utf8Length before) c = .error error) :
    ¬ Completable (before ++ c :: rest) := by
  intro completable
  obtain ⟨last, onwards⟩ := completable.reads
  obtain ⟨middle, early, late⟩ := reads_append.1 onwards
  obtain rfl := Except.ok.inj (reads.symm.trans early)
  rw [readAll, refused] at late
  cases late

/-- What is refused in front of a character is not the beginning of a group at the end. -/
theorem Refusal.not_atEnd {before rest other : List Char} {error : ParseError}
    (refusal : Refusal reading (utf8Length before) c error) (placed : reading.mode.Placed before)
    (whole : before ++ c :: rest = other ++ ['(', '?']) :
    error ≠ .unsupported (utf8Length other) := by
  intro same
  cases refusal with
  | caret caret between =>
    obtain ⟨-, behind⟩ := append_inj_of_utf8Length whole (ParseError.unsupported.inj same)
    rw [caret] at behind
    cases behind
  | quantifiedTwice at_ sign =>
    obtain ⟨-, behind⟩ := append_inj_of_utf8Length whole (ParseError.unsupported.inj same)
    rw [(List.cons.inj behind).1] at sign
    exact absurd sign (by decide)
  | unknownGroup at_ noColon =>
    rw [at_] at placed
    obtain ⟨outer, rfl, place, -⟩ := placed
    rw [List.append_assoc] at whole
    obtain ⟨-, behind⟩ := append_inj_of_utf8Length whole
      (place.symm.trans (ParseError.unsupported.inj same))
    cases behind
  | trailingParen | missingOperand | tooDeep | unexpectedChar | inverted | badBound => cases same

end Reading

namespace Regex

open Reading

theorem completable_toList {pattern : String} :
    (∃ more regex, parse (pattern ++ more) = .ok regex) ↔ Completable pattern.toList := by
  constructor
  · rintro ⟨more, regex, parsed⟩
    refine ⟨more.toList, regex, ?_⟩
    rwa [← String.toList_append, String.ofList_toList]
  · rintro ⟨more, regex, parsed⟩
    refine ⟨String.ofList more, regex, ?_⟩
    rwa [String.ofList_append, String.ofList_toList] at parsed

/-- A pattern that is refused is the beginning of one that is not exactly if something is open at
its end, or if it ends in the beginning of a group for which there is still room. -/
theorem completable_iff_of_parse_eq_error {pattern : String} {error : ParseError}
    (failed : parse pattern = .error error) :
    (∃ more regex, parse (pattern ++ more) = .ok regex) ↔
      (∃ place, error = .unclosedGroup place ∨ error = .unclosedClass place ∨
        error = .trailingEscape place) ∨
      ∃ before, pattern.toList = before ++ ['(', '?'] ∧
        error = .unsupported (utf8Length before) ∧ (outline before).parens.length < maxDepth := by
  rw [completable_toList]
  obtain ⟨before, c, rest, reading, whole, reads, refused⟩ | ⟨reading, reads, failed⟩ :=
    of_parse_eq_error failed
  · have refusal := refusal_of_step refused
    rw [whole]
    refine iff_of_false (not_completable_of_step reads refused) ?_
    rintro (⟨place, rfl | rfl | rfl⟩ | ⟨other, ends, same, -⟩)
    · cases refusal
    · cases refusal
    · cases refusal
    · exact refusal.not_atEnd reads.placed ends same
  · rw [reads.completable_iff]
    have ending := reading.ending_finish
    rw [failed] at ending
    cases ending with
    | openGroup closed inside =>
      exact iff_of_true (not_stuck_of_closed closed) (Or.inl ⟨_, Or.inl rfl⟩)
    | opened at_ room =>
      exact iff_of_true (fun stuck => room stuck.2) (Or.inl ⟨_, Or.inl rfl⟩)
    | tooDeep at_ full =>
      refine iff_of_false (fun free => free ⟨⟨_, Or.inl at_⟩, full⟩) ?_
      rintro (⟨place, same | same | same⟩ | ⟨before, -, same, -⟩) <;> cases same
    | query at_ =>
      obtain ⟨before, ends, rfl, depth⟩ := reads.query at_
      have limit := reads.depth_le
      constructor
      · intro free
        refine Or.inr ⟨before, ends, rfl, Nat.lt_of_le_of_ne (depth ▸ limit) ?_⟩
        exact fun full => free ⟨⟨_, Or.inr at_⟩, depth ▸ full⟩
      · rintro (⟨place, same | same | same⟩ | ⟨other, ends', -, room⟩) stuck
        · cases same
        · cases same
        · cases same
        · obtain rfl := List.append_cancel_right (ends.symm.trans ends')
          rw [depth, stuck.2] at room
          exact Nat.lt_irrefl _ room
    | escape backslash =>
      exact iff_of_true (not_stuck_of_backslash backslash) (Or.inl ⟨_, Or.inr (Or.inr rfl)⟩)
    | inClass bracket item =>
      exact iff_of_true (not_stuck_of_inClass item) (Or.inl ⟨_, Or.inr (Or.inl rfl)⟩)

/-- The beginning of a group may go on, but not like this; a range may go on behind a backslash. -/
theorem completable_iff_of_parse_eq_error_halves :
    parse "é(?" = .error (.unsupported 2) ∧ (∃ more regex, parse ("é(?" ++ more) = .ok regex) ∧
      parse "é(?=" = .error (.unsupported 2) ∧
      (¬ ∃ more regex, parse ("é(?=" ++ more) = .ok regex) ∧
      parse "(x[é-\\" = .error (.trailingEscape 6) ∧
      ∃ more regex, parse ("(x[é-\\" ++ more) = .ok regex := by
  have half : parse "é(?" = .error (.unsupported 2) := rfl
  have wrong : parse "é(?=" = .error (.unsupported 2) := rfl
  have range : parse "(x[é-\\" = .error (.trailingEscape 6) := rfl
  refine ⟨half, ?_, wrong, ?_, range, ?_⟩
  · exact (completable_iff_of_parse_eq_error half).2 (Or.inr ⟨['é'], rfl, rfl, by decide⟩)
  · rw [completable_iff_of_parse_eq_error wrong]
    rintro (⟨place, same | same | same⟩ | ⟨before, ends, -⟩)
    · cases same
    · cases same
    · cases same
    · have last : some '=' = some '?' :=
        (congrArg List.getLast? ends).trans List.getLast?_append
      exact absurd (Option.some.inj last) (by decide)
  · exact (completable_iff_of_parse_eq_error range).2 (Or.inl ⟨6, Or.inr (Or.inr rfl)⟩)

end Regex

end TaggedRegex
