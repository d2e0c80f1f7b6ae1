import TaggedRegex.Proofs.Grammar.Completion

set_option autoImplicit false

/-!
What an error says about the pattern. Its place is that of a character, up to which the text is the
beginning of a pattern, and the kind of the error tells what is wrong with that character.
-/

namespace TaggedRegex

open Grammar Reading

/-- Between `before` and `rest`, this character is what the error says. -/
inductive Blames : List Char → Char → List Char → ParseError → Prop where
  /-- The innermost parenthesis that is open at the end. -/
  | unclosedGroup {before rest : List Char} (plain : surroundings before = .plain)
      (atEnd : surroundings (before ++ '(' :: rest) = .plain)
      (innermost : (outline (before ++ '(' :: rest)).parens.head? = some (utf8Length before)) :
      Blames before '(' rest (.unclosedGroup (utf8Length before))
  /-- A closing parenthesis where none is open. -/
  | trailingParen {before rest : List Char} (plain : surroundings before = .plain)
      (outermost : (outline before).parens = []) :
      Blames before ')' rest (.trailingParen (utf8Length before))
  /-- The sign of a quantifier at the beginning of a branch. -/
  | missingOperand {before rest : List Char} {c : Char} (sign : c ∈ signs)
      (begins : BeginsBranch before) :
      Blames before c rest (.missingOperand (utf8Length before))
  /-- The bracket of the class in which the text ends. -/
  | unclosedClass {before rest : List Char} (plain : surroundings before = .plain)
      (atEnd : surroundings (before ++ '[' :: rest) = .inClass)
      (bracket : (outline (before ++ '[' :: rest)).bracket = some (utf8Length before)) :
      Blames before '[' rest (.unclosedClass (utf8Length before))
  /-- The first character of an item of a class, behind which stand a dash and something that is no
  upper bound: a character below the item, or a shorthand. -/
  | badRange {outer opening body item upper after rest : List Char} {c lo : Char}
      {ranges : List CharRange} (plain : surroundings outer = .plain)
      (opens : opening = ['[', '^'] ∨ opening = ['['] ∧ ∀ tail, body ++ item ≠ '^' :: tail)
      (items : ClassItems body ranges) (lower : ClassChar item lo)
      (apart : ClassItems (body ++ item) (ranges ++ [.single lo]))
      (bad : (∃ hi, ClassChar upper hi ∧ hi < lo) ∨
        ∃ letter meaning, upper = ['\\', letter] ∧ Shorthand letter meaning)
      (whole : c :: rest = item ++ '-' :: (upper ++ after)) :
      Blames (outer ++ opening ++ body) c rest
        (.badRange (utf8Length (outer ++ opening ++ body)))
  /-- A backslash at the end. -/
  | trailingEscape {before : List Char}
      (outside : surroundings before = .plain ∨ surroundings before = .inClass) :
      Blames before '\\' [] (.trailingEscape (utf8Length before))
  /-- A letter or a digit behind a backslash, with which it means nothing. -/
  | unexpectedChar {outer rest : List Char} {c : Char}
      (outside : surroundings outer = .plain ∨ surroundings outer = .inClass)
      (alphanumeric : Text.isAlphanumeric c = true) (noChar : ∀ meant, ¬ EscapedChar c meant)
      (noShorthand : ∀ ranges, ¬ Shorthand c ranges) :
      Blames (outer ++ ['\\']) c rest (.unexpectedChar (utf8Length (outer ++ ['\\'])) c)
  | caret {before rest : List Char} (plain : surroundings before = .plain) :
      Blames before '^' rest (.unsupported (utf8Length before))
  /-- The sign of a quantifier behind a complete quantifier. -/
  | quantified {outer atom sign rest : List Char} {c : Char} {room : Nat} {regex : Regex}
      {quantifier : Quantifier} (plain : surroundings outer = .plain)
      (item : Atom room atom regex)
      (complete : sign = [Regex.Quantifier.sign quantifier] ∧ c ≠ '?' ∨
        sign = [Regex.Quantifier.sign quantifier, '?']) (again : c ∈ signs) :
      Blames (outer ++ (atom ++ sign)) c rest
        (.unsupported (utf8Length (outer ++ (atom ++ sign))))
  /-- The parenthesis of a group of an unknown kind. -/
  | unknownGroup {before rest : List Char} (plain : surroundings before = .plain)
      (noColon : rest.head? ≠ some ':') :
      Blames before '(' ('?' :: rest) (.unsupported (utf8Length before))
  /-- A parenthesis that opens one group more than there may be. -/
  | tooDeep {before rest : List Char} (plain : surroundings before = .plain)
      (full : (outline before).parens.length = maxDepth) :
      Blames before '(' rest (.tooDeep (utf8Length before))

/-- The place of the error is that of a character, the text up to it is the beginning of a pattern,
and the character is what the error says. -/
def Blamed (text : List Char) (error : ParseError) : Prop :=
  ∃ before c rest, text = before ++ c :: rest ∧ error.place = utf8Length before ∧
    Completable before ∧ Blames before c rest error

theorem Level.Derived.plain {room : Nat} {before text : List Char} {level : Level}
    (derived : level.Derived room text) (plain : surroundings before = .plain) :
    surroundings (before ++ text) = .plain := by
  obtain ⟨height, -, nests, -⟩ := derived.branches.nests
  exact nests.plain_append plain

/-- Between items a text is plain. -/
theorem Level.Nested.plain {level : Level} {enclosing : List OpenGroup} {text : List Char}
    (nested : level.Nested enclosing text) : surroundings text = .plain := by
  induction enclosing generalizing level text with
  | nil =>
    have derived : level.Derived maxDepth text := nested
    have whole : surroundings ([] ++ text) = .plain := derived.plain rfl
    exact whole
  | cons group enclosing ih =>
    obtain ⟨-, before, inner, rfl, outer, derived⟩ := nested
    have opened : surroundings (before ++ group.opener) = .plain := by
      rw [surroundings_append, ih outer, OpenGroup.opener]
      split <;> rfl
    rw [← List.append_assoc]
    exact derived.plain opened

namespace Reading

variable {reading : Reading} {text before rest : List Char} {c : Char} {start : Nat}

/-- Whatever is read on, apart from a question mark, comes behind the beginning of a pattern. -/
theorem Reads.completable_before (reads : Reads (before ++ c :: rest) reading)
    (noQuery : c ≠ '?') : Completable before := by
  obtain ⟨middle, early, late⟩ := reads_append.1 reads
  rw [early.completable_iff]
  intro stuck
  rw [readAll] at late
  split at late
  · rename_i next stepped
    exact noQuery (stuck_of_step stuck stepped).2
  · cases late

theorem blamed_unclosedGroup (reads : Reads text reading)
    (plain : surroundings text = .plain)
    (innermost : (TaggedRegex.outline text).parens.head? = some start) :
    Blamed text (.unclosedGroup start) := by
  obtain ⟨before, rest, rfl, rfl, outside⟩ :=
    plainAt_of_mem_parens (List.mem_of_mem_head? innermost)
  exact ⟨before, '(', rest, rfl, rfl, reads.completable_before (by decide),
    .unclosedGroup outside plain innermost⟩

theorem blamed_unclosedClass (reads : Reads text reading)
    (bracket : reading.mode.bracket = some start) (item : reading.mode.surroundings = .inClass) :
    Blamed text (.unclosedClass start) := by
  have known : (TaggedRegex.outline text).bracket = some start := by
    rw [← reads.outline_eq]
    exact bracket
  obtain ⟨before, rest, rfl, rfl, outside⟩ := plainAt_of_bracket known
  exact ⟨before, '[', rest, rfl, rfl, reads.completable_before (by decide),
    .unclosedClass outside (reads.surroundings_eq.trans item) known⟩

/-- A parenthesis, alone or with a question mark, behind which the groups are as deep as they may
be. -/
theorem blamed_tooDeep {sign : List Char} (reads : Reads text reading)
    (half : reading.mode.parens = [start]) (ends : EndsWith text start sign)
    (paren : sign = ['('] ∨ sign = ['(', '?']) (full : reading.enclosing.length = maxDepth)
    (rest : List Char) : Blamed (text ++ rest) (.tooDeep start) := by
  obtain ⟨before, rfl, rfl, plain⟩ := ends
  have depth := reads.parens_before half paren plain
  obtain ⟨tail, rfl⟩ : ∃ tail, sign = '(' :: tail := by
    rcases paren with rfl | rfl
    · exact ⟨[], rfl⟩
    · exact ⟨['?'], rfl⟩
  exact ⟨before, '(', tail ++ rest, List.append_assoc .., rfl,
    reads.completable_before (by decide), .tooDeep plain (depth.trans full)⟩

theorem blamed_unknownGroup (reads : Reads text reading)
    (at_ : reading.mode = .openedQuery start) (noColon : rest.head? ≠ some ':') :
    Blamed (text ++ rest) (.unsupported start) := by
  have placed := reads.placed
  rw [at_] at placed
  obtain ⟨before, rfl, rfl, plain⟩ := placed
  exact ⟨before, '(', '?' :: rest, List.append_assoc .., rfl,
    reads.completable_before (by decide), .unknownGroup plain noColon⟩

/-- A backslash that has just been read is the last character, and no backslash is before it. -/
theorem Reads.backslash (reads : Reads text reading)
    (backslash : reading.mode.backslash = some start) :
    ∃ before, text = before ++ ['\\'] ∧ start = utf8Length before ∧
      (surroundings before = .plain ∨ surroundings before = .inClass) := by
  obtain ⟨before, rfl, place⟩ := reads.placed.ends_backslash backslash
  refine ⟨before, rfl, place, ?_⟩
  have escaped := Mode.escaped_of_backslash backslash
  rw [← reads.surroundings_eq, surroundings_append] at escaped
  cases outside : surroundings before with
  | plain => exact Or.inl rfl
  | inClass => exact Or.inr rfl
  | escaped | escapedInClass =>
    rw [outside] at escaped
    rcases escaped with same | same <;> cases same

/-- What stands behind a dash is no upper bound for the item before it. -/
theorem blamed_badRange {inner : ClassReading} {lo : Char} {behind upper after : List Char}
    (reads : Reads text reading) (at_ : reading.mode = .inClass inner)
    (begins : ∀ {opener body}, inner.mode.Placed opener body inner.ranges →
      BeginsRange opener body inner.ranges start lo behind)
    (bad : (∃ hi, ClassChar upper hi ∧ hi < lo) ∨
      ∃ letter meaning, upper = ['\\', letter] ∧ Shorthand letter meaning)
    (joined : behind ++ rest = '-' :: (upper ++ after)) :
    Blamed (text ++ rest) (.badRange start) := by
  have placed := reads.placed
  rw [at_] at placed
  obtain ⟨body, ⟨outer, rfl, opener, plain⟩, first, -, inside⟩ := placed
  obtain ⟨early, item, rfl, place, lower, items, apart⟩ := begins inside
  have opens : inner.opening = ['[', '^'] ∨
      inner.opening = ['['] ∧ ∀ tail, early ++ item ≠ '^' :: tail := by
    cases sign : inner.negated with
    | true => exact Or.inl (if_pos sign)
    | false =>
      refine Or.inr ⟨by rw [ClassReading.opening, sign]; rfl, fun tail same => ?_⟩
      obtain ⟨d, others, begun, noCaret⟩ := first sign
      rw [← List.append_assoc, same] at begun
      exact noCaret (List.cons.inj begun).1.symm
  -- Before the item the class is still open, so the text up to it can be completed.
  have within : surroundings (outer ++ inner.opening ++ early) = .inClass := by
    refine items.inClass_append ?_
    rcases opens with opens | ⟨opens, -⟩ <;> rw [opens, surroundings_append, plain] <;> rfl
  obtain ⟨d, tail, rfl⟩ : ∃ d tail, item = d :: tail := by
    cases lower <;> exact ⟨_, _, rfl⟩
  refine ⟨outer ++ inner.opening ++ early, d, tail ++ (behind ++ rest), by simp, ?_, ?_, ?_⟩
  · rw [utf8Length_append, utf8Length_append, ← opener]
    exact place
  · have parts : outer ++ (inner.opening ++ (early ++ (d :: tail ++ behind))) =
        (outer ++ inner.opening ++ early) ++ (d :: tail ++ behind) := by simp
    rw [parts] at reads
    obtain ⟨middle, readsMiddle, -⟩ := reads_append.1 reads
    rw [readsMiddle.completable_iff]
    exact not_stuck_of_inClass (readsMiddle.surroundings_eq.symm.trans within)
  · have whole := Blames.badRange plain opens items lower apart bad
      (show d :: (tail ++ (behind ++ rest)) = _ by rw [joined]; rfl)
    have here : start = utf8Length (outer ++ inner.opening ++ early) := by
      rw [utf8Length_append, utf8Length_append, ← opener]
      exact place
    rwa [here]

theorem blamed_quantified {rest : List Char} (reads : Reads text reading)
    (at_ : (∃ quantifier body, reading.mode = .repeated quantifier body ∧ c ≠ '?') ∨
      ∃ item, reading.mode = .complete item) (sign : c ∈ signs) :
    Blamed (text ++ c :: rest) (.unsupported (utf8Length text)) := by
  have completable : Completable text := by
    refine reads.completable_iff.2 (not_stuck_of_closed ?_)
    obtain ⟨quantifier, body, at_, -⟩ | ⟨item, at_⟩ := at_ <;> rw [at_] <;> trivial
  obtain ⟨settled, pending, rfl, nested, last⟩ := reads.derived
  obtain ⟨quantifier, body, at_, noQuery⟩ | ⟨item, at_⟩ := at_
  · rw [at_] at last
    obtain ⟨atom, rfl, derived⟩ := last
    exact ⟨_, c, rest, rfl, rfl, completable,
      .quantified nested.plain derived (Or.inl ⟨rfl, noQuery⟩) sign⟩
  · rw [at_] at last
    obtain ⟨atom, quantifier, body, rfl, derived, -⟩ := last
    exact ⟨_, c, rest, rfl, rfl, completable, .quantified nested.plain derived (Or.inr rfl) sign⟩

theorem Reads.plain_of_fresh (reads : Reads text reading) (fresh : reading.Fresh) :
    surroundings text = .plain := by
  rw [reads.surroundings_eq]
  obtain at_ | ⟨start, at_, -⟩ := fresh <;> rw [at_] <;> rfl

theorem Reads.beginsBranch (reads : Reads text reading) (fresh : reading.Fresh) :
    BeginsBranch text := by
  have placed := reads.placed
  obtain at_ | ⟨start, at_, -⟩ := fresh
  · rw [at_] at placed
    exact placed
  · rw [at_] at placed
    exact Or.inr ⟨start, ['('], by decide, placed⟩

/-- A character that is refused. -/
theorem blamed_of_refusal {error : ParseError} (reads : Reads text reading)
    (refusal : Refusal reading (utf8Length text) c error) (rest : List Char) :
    Blamed (text ++ c :: rest) error := by
  have placed := reads.placed
  -- Most errors are about the character itself.
  have here : ∀ {error : ParseError}, ¬ reading.Stuck → error.place = utf8Length text →
      Blames text c rest error → Blamed (text ++ c :: rest) error :=
    fun free place blames => ⟨text, c, rest, rfl, place, reads.completable_iff.2 free, blames⟩
  cases refusal with
  | trailingParen closed paren outermost =>
    have parens := reads.parens_of_closed closed
    rw [outermost] at parens
    subst paren
    exact here (not_stuck_of_closed closed) rfl
      (.trailingParen (reads.plain_of_closed closed) parens)
  | missingOperand sign fresh =>
    exact here (not_stuck_of_fresh fresh) rfl (.missingOperand sign (reads.beginsBranch fresh))
  | caret caret between =>
    subst caret
    rcases between with closed | fresh
    · exact here (not_stuck_of_closed closed) rfl (.caret (reads.plain_of_closed closed))
    · exact here (not_stuck_of_fresh fresh) rfl (.caret (reads.plain_of_fresh fresh))
  | quantifiedTwice at_ sign => exact blamed_quantified reads at_ sign
  | tooDeep at_ full =>
    obtain ⟨at_, -⟩ | ⟨at_, -⟩ := at_
    · rw [at_] at placed
      exact blamed_tooDeep reads (by rw [at_]; rfl) placed (Or.inl rfl) full (c :: rest)
    · rw [at_] at placed
      exact blamed_tooDeep reads (by rw [at_]; rfl) placed (Or.inr rfl) full (c :: rest)
  | unknownGroup at_ noColon =>
    exact blamed_unknownGroup reads at_ fun same => noColon (Option.some.inj same)
  | unexpectedChar escaping meaningless alphanumeric =>
    obtain ⟨outer, rfl, -, outside⟩ := reads.backslash escaping
    refine here (not_stuck_of_backslash escaping) rfl
      (.unexpectedChar outside alphanumeric (fun meant escape => ?_) fun ranges short => ?_)
    · rw [ofChar_escapedChar escape] at meaningless
      cases meaningless
    · rw [ofChar_shorthand short] at meaningless
      cases meaningless
  | @inverted inner start lo hi at_ bounds inverted =>
    have lt : hi < lo := by
      unfold CharRange.ofBounds? at inverted
      split at inverted
      · cases inverted
      · rename_i notLe
        exact Char.not_le.1 notLe
    obtain ⟨last, noBracket, noBackslash, rfl⟩ | ⟨escape, last, meant⟩ := bounds
    · have char : ClassChar [hi] hi := .plain hi noBracket noBackslash
      exact blamed_badRange reads at_ (fun placed => by rw [last] at placed; exact placed)
        (Or.inl ⟨hi, char, lt⟩) rfl
    · have char : ClassChar ['\\', c] hi := .escaped (escapedChar_of_ofChar meant)
      exact blamed_badRange reads at_ (fun placed => by rw [last] at placed; exact placed.1)
        (Or.inl ⟨hi, char, lt⟩) rfl
  | badBound at_ last short =>
    exact blamed_badRange reads at_ (fun placed => by rw [last] at placed; exact placed.1)
      (Or.inr ⟨c, _, rfl, shorthand_of_ofChar short⟩) rfl

/-- A text that may not end where it does. -/
theorem blamed_of_ending {error : ParseError} (reads : Reads text reading)
    (ending : reading.Ending (.error error)) : Blamed text error := by
  have placed := reads.placed
  have whole := List.append_nil text
  cases ending with
  | openGroup closed inside =>
    have parens := reads.parens_of_closed closed
    rw [inside] at parens
    exact blamed_unclosedGroup reads (reads.plain_of_closed closed) (by rw [parens]; rfl)
  | opened at_ room =>
    have parens := congrArg Outline.parens reads.outline_eq
    rw [Reading.outline, at_] at parens
    exact blamed_unclosedGroup reads (by rw [reads.surroundings_eq, at_]; rfl)
      (by rw [← parens]; rfl)
  | tooDeep at_ full =>
    rw [at_] at placed
    rw [← whole]
    exact blamed_tooDeep reads (by rw [at_]; rfl) placed (Or.inl rfl) full []
  | query at_ =>
    rw [← whole]
    exact blamed_unknownGroup reads at_ (fun same => by cases same)
  | escape backslash =>
    obtain ⟨before, rfl, rfl, outside⟩ := reads.backslash backslash
    exact ⟨before, '\\', [], rfl, rfl, reads.completable_before (by decide),
      .trailingEscape outside⟩
  | inClass bracket item => exact blamed_unclosedClass reads bracket item

end Reading

namespace Regex

/-- The place of an error is that of a character of the pattern, the pattern up to it can be
completed, and the character is what the error says. -/
theorem blames_of_parse_eq_error {pattern : String} {error : ParseError}
    (failed : parse pattern = .error error) :
    ∃ before c rest, pattern.toList = before ++ c :: rest ∧ error.place = utf8Length before ∧
      (∃ more regex, parse (String.ofList before ++ more) = .ok regex) ∧
      Blames before c rest error := by
  have blamed : Blamed pattern.toList error := by
    obtain ⟨before, c, rest, reading, whole, reads, refused⟩ | ⟨reading, reads, failed⟩ :=
      of_parse_eq_error failed
    · rw [whole]
      exact blamed_of_refusal reads (refusal_of_step refused) rest
    · have ending := reading.ending_finish
      rw [failed] at ending
      exact blamed_of_ending reads ending
  obtain ⟨before, c, rest, whole, place, completable, blames⟩ := blamed
  refine ⟨before, c, rest, whole, place, completable_toList.2 ?_, blames⟩
  rwa [String.toList_ofList]

/-- The range from `é` to `z` is inverted; its place counts the two bytes of the first `é`. -/
theorem blames_of_parse_eq_error_range :
    parse "é|(?:a[\\dé-z])" = .error (.badRange 10) ∧
      ∃ before c rest, "é|(?:a[\\dé-z])".toList = before ++ c :: rest ∧ 10 = utf8Length before ∧
        (∃ more regex, parse (String.ofList before ++ more) = .ok regex) ∧
        Blames before c rest (.badRange 10) := by
  have inverted : parse "é|(?:a[\\dé-z])" = .error (.badRange 10) := rfl
  exact ⟨inverted, blames_of_parse_eq_error inverted⟩

end Regex

end TaggedRegex
