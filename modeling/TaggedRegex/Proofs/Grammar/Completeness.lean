import TaggedRegex.Proofs.Grammar.Basic

set_option autoImplicit false

/-!
Every pattern of the grammar is read, and as the expression that the grammar gives it. An item that
has been read may still wait for a quantifier; what counts is the reading once the item has joined
its sequence, and the next character sees no difference unless it is the sign of a quantifier.
-/

namespace TaggedRegex

open Grammar

theorem Quantifier.ofSign?_sign (quantifier : Quantifier) :
    ofSign? (Regex.Quantifier.sign quantifier) = some quantifier := by
  cases quantifier <;> rfl

theorem Quantifier.ofSign?_eq_none_iff (c : Char) : ofSign? c = none ↔ c ∉ signs := by
  unfold ofSign?
  split <;> simp_all [signs]

namespace Level

/-- The level with more items in its current sequence. -/
def extend (level : Level) (items : List Regex) : Level :=
  { level with items := items.reverse ++ level.items }

theorem push_eq_extend (level : Level) (item : Regex) :
    level.push item = level.extend item.pieces := by
  cases item <;> rfl

@[simp] theorem extend_extend (level : Level) (first second : List Regex) :
    (level.extend first).extend second = level.extend (first ++ second) := by
  simp [extend]

theorem branch_eq_sequence (level : Level) : level.branch = .sequence level.items.reverse := by
  unfold branch
  split
  · rename_i one
    rw [one]
    rfl
  · rename_i many
    rcases shape : level.items.reverse with _ | ⟨first, _ | ⟨second, rest⟩⟩
    · rfl
    · exact absurd (List.reverse_eq_iff.1 shape) (many first)
    · rfl

theorem regex_eq_choice (level : Level) :
    level.regex = .choice (level.branch :: level.branches).reverse := by
  unfold regex
  split
  · rename_i none
    rw [none]
    rfl
  · rename_i some
    rcases shape : (level.branch :: level.branches).reverse with _ | ⟨first, _ | ⟨second, rest⟩⟩
    · simp at shape
    · rw [List.reverse_eq_iff] at shape
      simp only [List.reverse_singleton, List.cons.injEq] at shape
      exact absurd shape.2 some
    · rfl

end Level

/-- Nothing is half read: the pattern may end here, or another item may begin. -/
def Mode.Closed : Mode → Prop
  | .ready | .atom _ | .repeated _ _ | .complete _ => True
  | .opened _ | .openedQuery _ | .escape _ | .classOpened _ | .inClass _ => False

namespace Reading

variable {reading : Reading}

@[simp] theorem settle_enclosing (reading : Reading) :
    reading.settle.enclosing = reading.enclosing := by
  unfold settle
  split <;> rfl

theorem settle_mode (closed : reading.mode.Closed) : reading.settle.mode = .ready := by
  unfold settle
  cases mode : reading.mode <;> simp_all [push, Mode.Closed]

theorem settle_of_ready (ready : reading.mode = .ready) : reading.settle = reading := by
  rw [settle, ready]

theorem closed_of_ready (ready : reading.mode = .ready) : reading.mode.Closed := by
  rw [ready]
  trivial

theorem step_of_ready (ready : reading.mode = .ready) (place : Nat) (c : Char) :
    reading.step place c = reading.begin place c := by
  rw [step, ready]

/-- A character that is not the sign of a quantifier ends the last item. -/
theorem step_of_closed (closed : reading.mode.Closed) {c : Char} (other : c ∉ signs)
    (place : Nat) : reading.step place c = reading.settle.begin place c := by
  have noSign := (Quantifier.ofSign?_eq_none_iff c).2 other
  have noQuery : c ≠ '?' := by
    rintro rfl
    exact other (by decide)
  unfold step settle
  cases mode : reading.mode <;> simp_all [Mode.Closed]

theorem finish_of_closed (closed : reading.mode.Closed) (outermost : reading.enclosing = []) :
    reading.finish = .ok reading.settle.level.regex := by
  unfold finish
  cases mode : reading.mode <;> simp_all [Mode.Closed]

/-- The text brings the reading to `target`, once the last item has joined its sequence. -/
def Reaches (reading : Reading) (place : Nat) (text : List Char) (target : Reading) : Prop :=
  ∃ later, reading.readAll place text = .ok later ∧ later.mode.Closed ∧ later.settle = target

theorem readAll_append_of_ok {place : Nat} {first : List Char} {middle : Reading}
    (reads : reading.readAll place first = .ok middle) (second : List Char) :
    reading.readAll place (first ++ second) =
      middle.readAll (place + utf8Length first) second := by
  rw [readAll_append, reads]
  rfl

theorem readAll_singleton (reading : Reading) (place : Nat) (c : Char) :
    reading.readAll place [c] = reading.step place c := by
  rw [readAll]
  cases reading.step place c <;> rfl

theorem readAll_cons_of_ok {place : Nat} {c : Char} {next : Reading}
    (reads : reading.step place c = .ok next) (rest : List Char) :
    reading.readAll place (c :: rest) = next.readAll (place + c.utf8Size) rest := by
  rw [readAll, reads]

/-- The next item begins as if the one before it had joined its sequence. -/
theorem Reaches.of_settle {place : Nat} {text : List Char} {target : Reading}
    (closed : reading.mode.Closed)
    (apart : ∀ (c : Char) (tail : List Char), text = c :: tail → c ∉ signs)
    (reaches : reading.settle.Reaches place text target) :
    reading.Reaches place text target := by
  have ready := settle_mode closed
  cases text with
  | nil =>
    obtain ⟨later, reads, -, same⟩ := reaches
    obtain rfl := Except.ok.inj reads
    exact ⟨reading, rfl, closed, by rw [← same, settle_of_ready ready]⟩
  | cons c tail =>
    have first : reading.readAll place (c :: tail) = reading.settle.readAll place (c :: tail) := by
      rw [readAll, readAll, step_of_closed closed (apart c tail rfl), step_of_ready ready]
    obtain ⟨later, reads, rest⟩ := reaches
    exact ⟨later, first.trans reads, rest⟩

theorem Reaches.append {place : Nat} {first second : List Char} {middle target : Reading}
    (reaches : reading.Reaches place first middle)
    (apart : ∀ (c : Char) (tail : List Char), second = c :: tail → c ∉ signs)
    (onwards : middle.Reaches (place + utf8Length first) second target) :
    reading.Reaches place (first ++ second) target := by
  obtain ⟨later, reads, closed, rfl⟩ := reaches
  obtain ⟨last, reads', rest⟩ := onwards.of_settle closed apart
  exact ⟨last, (readAll_append_of_ok reads second).trans reads', rest⟩

/-- A character behind the text that is not the sign of a quantifier. -/
theorem Reaches.begin {place : Nat} {text : List Char} {target : Reading}
    (reaches : reading.Reaches place text target) {c : Char} (other : c ∉ signs) :
    reading.readAll place (text ++ [c]) = target.begin (place + utf8Length text) c := by
  obtain ⟨later, reads, closed, rfl⟩ := reaches
  rw [readAll_append_of_ok reads, readAll_singleton, step_of_closed closed other]

/-! ### Escapes and classes -/

theorem ofChar_escapedChar {c meant : Char} (escape : EscapedChar c meant) (place : Nat) :
    Escape.ofChar place c = .ok (.char meant) := by
  cases escape with
  | newline => rfl
  | tab => rfl
  | carriageReturn => rfl
  | self c other =>
    unfold Escape.ofChar
    split <;> first | (exact absurd other (by decide)) | simp [other]

theorem ofChar_shorthand {c : Char} {ranges : List CharRange} (short : Shorthand c ranges)
    (place : Nat) : Escape.ofChar place c = .ok (.ranges ranges) := by
  cases short <;> rfl

/-- What a class may turn into, from where an item may begin: the ranges of the rest of the class
join those found so far. -/
def closeWith (negated : Bool) (ranges : List CharRange) : Mode :=
  .atom (.set (if negated then CharRange.complement ranges else ranges))

end Reading

namespace Reading

/-- A reading inside a class. -/
def inside (reading : Reading) (opener : Nat) (negated : Bool) (ranges : List CharRange)
    (mode : ClassMode) : Reading :=
  { reading with mode := .inClass ⟨opener, negated, ranges, mode⟩ }

variable {reading : Reading} {opener : Nat} {negated : Bool} {found : List CharRange}

theorem step_inside (mode : ClassMode) (place : Nat) (c : Char) :
    (reading.inside opener negated found mode).step place c =
      match ClassReading.step ⟨opener, negated, found, mode⟩ place c with
      | .ok mode => .ok { reading with mode }
      | .error error => .error error := rfl

/-- A character of a class may be the lower bound of a range. -/
theorem readAll_classChar {text : List Char} {c : Char} (char : ClassChar text c) (place : Nat) :
    ∃ start, (reading.inside opener negated found .item).readAll place text =
      .ok (reading.inside opener negated found (.bound start c)) := by
  cases char with
  | plain c noBracket noBackslash =>
    refine ⟨place, ?_⟩
    rw [readAll_singleton, step_inside]
    simp [ClassReading.step, ClassReading.begin, noBracket, noBackslash, inside]
  | @escaped c meant escape =>
    refine ⟨place, ?_⟩
    have first : (reading.inside opener negated found .item).step place '\\' =
        .ok (reading.inside opener negated found (.escape place)) := rfl
    rw [readAll_cons_of_ok first, readAll_singleton, step_inside]
    simp [ClassReading.step, ofChar_escapedChar escape, inside]

/-- The upper bound of a range. -/
theorem readAll_upper {range : CharRange} {text : List Char} (char : ClassChar text range.hi)
    (start place : Nat) :
    (reading.inside opener negated found (.dash start range.lo)).readAll place text =
      .ok (reading.inside opener negated (found ++ [range]) .item) := by
  have ordered : CharRange.ofBounds? range.lo range.hi = some range := by
    simp [CharRange.ofBounds?, range.lo_le_hi]
  cases char with
  | plain c noBracket noBackslash =>
    rw [readAll_singleton, step_inside]
    simp [ClassReading.step, noBracket, noBackslash, ClassReading.addRange, ordered,
      ClassReading.add, inside]
  | @escaped c meant escape =>
    have first : (reading.inside opener negated found (.dash start range.lo)).step place '\\' =
        .ok (reading.inside opener negated found (.dashEscape start range.lo place)) := rfl
    rw [readAll_cons_of_ok first, readAll_singleton, step_inside]
    simp [ClassReading.step, ofChar_escapedChar escape, ClassReading.addRange, ordered,
      ClassReading.add, inside]

/-- A character that no range begins with is a range of its own. -/
theorem step_bound (start place : Nat) (lo : Char) {c : Char} (noDash : c ≠ '-') :
    (reading.inside opener negated found (.bound start lo)).step place c =
      (reading.inside opener negated (found ++ [.single lo]) .item).step place c := by
  rw [step_inside, step_inside]
  simp [ClassReading.step, noDash, ClassReading.add]

/-- A dash right before the bracket is an item of its own. -/
theorem readAll_lastDash (start place : Nat) (lo : Char) :
    (reading.inside opener negated found (.bound start lo)).readAll place ['-', ']'] =
      (reading.inside opener negated (found ++ [.single lo]) .item).readAll place ['-', ']'] := by
  have joined : found ++ [CharRange.single lo, CharRange.single '-'] =
      found ++ [CharRange.single lo] ++ [CharRange.single '-'] := by simp
  show Except.ok { reading with
      mode := closeWith negated (found ++ [CharRange.single lo, CharRange.single '-']) } =
    Except.ok { reading with
      mode := closeWith negated (found ++ [CharRange.single lo] ++ [CharRange.single '-']) }
  rw [joined]

/-- The items of a class and the bracket behind them. -/
theorem readAll_classItems {body : List Char} {ranges : List CharRange}
    (items : ClassItems body ranges) (found : List CharRange) (place : Nat) :
    (reading.inside opener negated found .item).readAll place (body ++ [']']) =
      .ok { reading with mode := closeWith negated (found ++ ranges) } := by
  induction items generalizing found place with
  | nil =>
    rw [List.nil_append, readAll_singleton, List.append_nil]
    rfl
  | @shorthand c ranges more rest short items ih =>
    have first : (reading.inside opener negated found .item).step place '\\' =
        .ok (reading.inside opener negated found (.escape place)) := rfl
    have second : ∀ place', (reading.inside opener negated found (.escape place)).step place' c =
        .ok (reading.inside opener negated (found ++ ranges) .item) := by
      intro place'
      rw [step_inside]
      simp [ClassReading.step, ofChar_shorthand short, ClassReading.add, inside]
    rw [List.cons_append, List.cons_append, readAll_cons_of_ok first, readAll_cons_of_ok (second _),
      ih, List.append_assoc]
  | @single lo text rest more char items alone ih =>
    obtain ⟨start, reads⟩ : ∃ start,
        (reading.inside opener negated found .item).readAll place text =
          .ok (reading.inside opener negated found (.bound start lo)) :=
      readAll_classChar char place
    rw [List.append_assoc, readAll_append_of_ok reads]
    have onwards := ih (found ++ [.single lo])
    rw [List.append_assoc, List.singleton_append] at onwards
    rcases rest with _ | ⟨c, tail⟩
    · rw [List.nil_append, readAll_singleton, step_bound start _ lo (by decide),
        ← readAll_singleton]
      exact onwards _
    · by_cases dash : c = '-'
      · subst dash
        -- A dash before anything but the bracket would make this item a range.
        obtain rfl : tail = [] := by
          cases tail with
          | nil => rfl
          | cons next others => exact absurd rfl (alone next others)
        exact (readAll_lastDash start _ lo).trans (onwards _)
      · rw [List.cons_append, readAll, step_bound start _ lo dash]
        exact onwards _
  | @range range lower upper rest more lo hi items ih =>
    obtain ⟨start, reads⟩ : ∃ start,
        (reading.inside opener negated found .item).readAll place lower =
          .ok (reading.inside opener negated found (.bound start range.lo)) :=
      readAll_classChar lo place
    rw [List.append_assoc, readAll_append_of_ok reads, List.cons_append]
    have dash : ∀ place', (reading.inside opener negated found (.bound start range.lo)).step
        place' '-' = .ok (reading.inside opener negated found (.dash start range.lo)) :=
      fun place' => rfl
    rw [readAll_cons_of_ok (dash _), List.append_assoc,
      readAll_append_of_ok (readAll_upper hi start _), ih, List.append_assoc, List.singleton_append]

theorem readAll_class {text : List Char} {ranges : List CharRange} (items : Class text ranges)
    (ready : reading.mode = .ready) (place : Nat) :
    reading.readAll place text = .ok { reading with mode := .atom (.set ranges) } := by
  have opens : reading.step place '[' = .ok { reading with mode := .classOpened place } := by
    rw [step_of_ready ready]
    rfl
  cases items with
  | @positive body ranges items noCaret =>
    have first : ∀ place' c, c ≠ '^' → Reading.step { reading with mode := .classOpened place }
        place' c = (reading.inside place false [] .item).step place' c := by
      intro place' c other
      rw [step_inside]
      simp [step, other, ClassReading.step]
    have same : ∀ place', Reading.readAll { reading with mode := .classOpened place } place'
        (body ++ [']']) = (reading.inside place false [] .item).readAll place' (body ++ [']']) := by
      intro place'
      cases body with
      | nil => rfl
      | cons c tail =>
        have other : c ≠ '^' := by
          rintro rfl
          exact noCaret tail rfl
        rw [List.cons_append, readAll, first _ _ other]
        rfl
    rw [readAll_cons_of_ok opens, same, readAll_classItems items]
    rfl
  | @negative body ranges items =>
    have caret : ∀ place', Reading.step { reading with mode := .classOpened place } place' '^' =
        .ok (reading.inside place true [] .item) := fun place' => rfl
    rw [readAll_cons_of_ok opens, readAll_cons_of_ok (caret _), readAll_classItems items]
    rfl

/-! ### Atoms, items and branches -/

/-- Reading the text, from where an item may begin, gives the atom. -/
def ReadsAtom (room : Nat) (text : List Char) (regex : Regex) : Prop :=
  ∀ (reading : Reading) (place : Nat), reading.mode = .ready →
    reading.enclosing.length + room = maxDepth →
    reading.readAll place text = .ok { reading with mode := .atom regex }

/-- Reading the text, from where an item may begin, adds the items to the current sequence. -/
def ReadsItems (room : Nat) (text : List Char) (items : List Regex) : Prop :=
  ∀ (reading : Reading) (place : Nat), reading.mode = .ready →
    reading.enclosing.length + room = maxDepth →
    reading.Reaches place text { reading with level := reading.level.extend items }

/-- Reading the text, from where a branch may begin, adds the branches to those of the level. -/
def ReadsBranches (room : Nat) (text : List Char) (branches : List Regex) : Prop :=
  ∀ (reading : Reading) (place : Nat), reading.mode = .ready → reading.level.items = [] →
    reading.enclosing.length + room = maxDepth →
    ∃ level : Level, reading.Reaches place text { reading with level } ∧
      level.branch :: level.branches = branches.reverse ++ reading.level.branches

theorem ReadsAtom.items {room : Nat} {text : List Char} {regex : Regex}
    (reads : ReadsAtom room text regex) : ReadsItems room text regex.pieces := by
  intro reading place ready within
  refine ⟨_, reads reading place ready within, trivial, ?_⟩
  obtain ⟨level, enclosing, mode⟩ := reading
  obtain rfl : mode = .ready := ready
  show push _ regex = _
  rw [push, Level.push_eq_extend]

theorem ReadsAtom.repeated {room : Nat} {text : List Char} {regex : Regex}
    (reads : ReadsAtom room text regex) (quantifier : Quantifier) (greed : Greed) :
    ReadsItems room (text ++ Regex.repetitionSigns quantifier greed)
      [.rep quantifier greed regex] := by
  intro reading place ready within
  have sign : ∀ place', Reading.step { reading with mode := .atom regex } place'
      (Regex.Quantifier.sign quantifier) =
        .ok { reading with mode := .repeated quantifier regex } := by
    intro place'
    rw [step]
    simp [Quantifier.ofSign?_sign]
  have query : ∀ place', Reading.step { reading with mode := .repeated quantifier regex } place'
      '?' = .ok { reading with mode := .complete (.rep quantifier .lazy regex) } :=
    fun place' => rfl
  obtain ⟨level, enclosing, mode⟩ := reading
  obtain rfl : mode = .ready := ready
  cases greed with
  | greedy =>
    refine ⟨⟨level, enclosing, .repeated quantifier regex⟩, ?_, trivial, rfl⟩
    rw [readAll_append_of_ok (reads _ place rfl within)]
    exact (readAll_singleton _ _ _).trans (sign _)
  | lazy =>
    refine ⟨⟨level, enclosing, .complete (.rep quantifier .lazy regex)⟩, ?_, trivial, rfl⟩
    rw [readAll_append_of_ok (reads _ place rfl within)]
    exact (readAll_cons_of_ok (sign _) _).trans ((readAll_singleton _ _ _).trans (query _))

theorem ReadsItems.append {room : Nat} {text rest : List Char} {items more : List Regex}
    (first : ReadsItems room text items) (others : ReadsItems room rest more)
    (apart : ∀ (c : Char) (tail : List Char), rest = c :: tail → c ∉ signs) :
    ReadsItems room (text ++ rest) (items ++ more) := by
  intro reading place ready within
  apply (first reading place ready within).append apart
  have onwards := others { reading with level := reading.level.extend items }
    (place + utf8Length text) ready within
  rw [Level.extend_extend] at onwards
  exact onwards

theorem ReadsItems.last {room : Nat} {text : List Char} {items : List Regex}
    (reads : ReadsItems room text items) : ReadsBranches room text [.sequence items] := by
  intro reading place ready blank within
  refine ⟨_, reads reading place ready within, ?_⟩
  rw [Level.branch_eq_sequence]
  simp [Level.extend, blank]

theorem ReadsItems.before {room : Nat} {text rest : List Char} {items more : List Regex}
    (first : ReadsItems room text items) (others : ReadsBranches room rest more) :
    ReadsBranches room (text ++ '|' :: rest) (.sequence items :: more) := by
  intro reading place ready blank within
  -- Behind the bar the row of items is empty again, as it is where the first branch begins.
  have bar := (first reading place ready within).begin (c := '|') (by decide)
  obtain ⟨level, onwards, same⟩ := others
    { reading with level := (reading.level.extend items).bar, mode := .ready }
    (place + utf8Length (text ++ ['|'])) rfl rfl within
  refine ⟨level, ?_, ?_⟩
  · obtain ⟨later, reads, rest⟩ := onwards
    refine ⟨later, ?_, ?_⟩
    · rw [← List.singleton_append, ← List.append_assoc, readAll_append_of_ok bar]
      exact reads
    · rw [← ready] at rest
      exact rest
  · rw [same]
    simp [Level.bar, Level.branch_eq_sequence, Level.extend, blank]

/-- A group, from the character behind its opening on. -/
theorem ReadsBranches.leave {room : Nat} {text : List Char} {branches : List Regex}
    (reads : ReadsBranches room text branches) (level : Level) (enclosing : List OpenGroup)
    (within : enclosing.length + (room + 1) = maxDepth) (start place : Nat) (capturing : Bool) :
    Reading.readAll ⟨.empty, ⟨start, capturing, level⟩ :: enclosing, .ready⟩ place (text ++ [')']) =
      .ok ⟨level, enclosing,
        .atom (if capturing then .group (.choice branches) else .choice branches)⟩ := by
  obtain ⟨inner, reaches, same⟩ := reads ⟨.empty, ⟨start, capturing, level⟩ :: enclosing, .ready⟩
    place rfl rfl (by simp only [List.length_cons]; omega)
  rw [reaches.begin (by decide)]
  show Except.ok (Reading.mk _ _
    (.atom (if capturing then .group inner.regex else inner.regex))) = _
  rw [Level.regex_eq_choice, same]
  simp [Level.empty]

theorem enter_eq_ok (reading : Reading) {room : Nat}
    (within : reading.enclosing.length + (room + 1) = maxDepth)
    (start : Nat) (capturing : Bool) :
    reading.enter start capturing =
      .ok ⟨.empty, ⟨start, capturing, reading.level⟩ :: reading.enclosing, .ready⟩ := by
  rw [enter, if_neg (by omega)]

theorem ReadsBranches.group {room : Nat} {text : List Char} {branches : List Regex}
    (reads : ReadsBranches room text branches)
    (capturing : ∀ tail : List Char, text ≠ '?' :: tail) :
    ReadsAtom (room + 1) ('(' :: (text ++ [')'])) (.group (.choice branches)) := by
  intro reading place ready within
  have opens : reading.step place '(' = .ok { reading with mode := .opened place } := by
    rw [step_of_ready ready]
    rfl
  have enters : ∀ (place' : Nat) (c : Char), c ≠ '?' →
      Reading.step { reading with mode := .opened place } place' c =
        Reading.step ⟨.empty, ⟨place, true, reading.level⟩ :: reading.enclosing, .ready⟩
          place' c := by
    intro place' c other
    have entered := enter_eq_ok { reading with mode := .opened place } within place true
    simp only [step, other, if_false, entered]
  have inner := reads.leave reading.level reading.enclosing within place
    (place + Char.utf8Size '(') true
  rw [readAll_cons_of_ok opens]
  cases text with
  | nil =>
    rw [List.nil_append, readAll_singleton, enters _ _ (by decide), ← readAll_singleton]
    exact inner
  | cons c tail =>
    have other : c ≠ '?' := by
      rintro rfl
      exact capturing tail rfl
    rw [List.cons_append, readAll, enters _ _ other]
    exact inner

theorem ReadsBranches.bracketed {room : Nat} {text : List Char} {branches : List Regex}
    (reads : ReadsBranches room text branches) :
    ReadsAtom (room + 1) ('(' :: '?' :: ':' :: (text ++ [')'])) (.choice branches) := by
  intro reading place ready within
  have opens : reading.step place '(' = .ok { reading with mode := .opened place } := by
    rw [step_of_ready ready]
    rfl
  have query : ∀ place', Reading.step { reading with mode := .opened place } place' '?' =
      .ok { reading with mode := .openedQuery place } := fun place' => rfl
  have colon : ∀ place', Reading.step { reading with mode := .openedQuery place } place' ':' =
      .ok ⟨.empty, ⟨place, false, reading.level⟩ :: reading.enclosing, .ready⟩ := fun place' =>
    enter_eq_ok { reading with mode := .openedQuery place } within place false
  rw [readAll_cons_of_ok opens, readAll_cons_of_ok (query _), readAll_cons_of_ok (colon _)]
  exact reads.leave reading.level reading.enclosing within place _ false

theorem readsAtom_lit {room : Nat} {c : Char} (plain : c ∉ reserved) :
    ReadsAtom room [c] (.lit c) := by
  intro reading place ready _
  rw [readAll_singleton, step_of_ready ready]
  simp only [reserved, List.mem_cons, List.not_mem_nil, or_false, not_or] at plain
  simp [begin, plain]

/-- A backslash and the character behind it. -/
theorem readAll_escape (ready : reading.mode = .ready) (place : Nat) (c : Char) :
    reading.readAll place ['\\', c] =
      Reading.step { reading with mode := .escape place } (place + Char.utf8Size '\\') c := by
  have opens : reading.step place '\\' = .ok { reading with mode := .escape place } := by
    rw [step_of_ready ready]
    rfl
  rw [readAll_cons_of_ok opens, readAll_singleton]

end Reading

namespace Grammar

open Reading

mutual

theorem Atom.reads {room : Nat} {text : List Char} {regex : Regex} :
    Atom room text regex → ReadsAtom room text regex
  | .any => by
    intro reading place ready _
    rw [readAll_singleton, step_of_ready ready]
    rfl
  | .atEnd => by
    intro reading place ready _
    rw [readAll_singleton, step_of_ready ready]
    rfl
  | .lit plain => readsAtom_lit plain
  | .escapedChar escape => by
    intro reading place ready _
    rw [readAll_escape ready, step]
    simp [ofChar_escapedChar escape]
  | .shorthand short => by
    intro reading place ready _
    rw [readAll_escape ready, step]
    simp [ofChar_shorthand short]
  | .set items => fun _ place ready _ => readAll_class items ready place
  | .group body capturing => ReadsBranches.group (Branches.reads body) capturing
  | .bracketed body => ReadsBranches.bracketed (Branches.reads body)

theorem Item.reads {room : Nat} {text : List Char} {items : List Regex} :
    Item room text items → ReadsItems room text items
  | .once atom => ReadsAtom.items (Atom.reads atom)
  | .greedy quantifier atom => ReadsAtom.repeated (Atom.reads atom) quantifier .greedy
  | .lazy quantifier atom => ReadsAtom.repeated (Atom.reads atom) quantifier .lazy

theorem Items.reads {room : Nat} {text : List Char} {items : List Regex} :
    Items room text items → ReadsItems room text items
  | .nil => fun reading _ ready _ => ⟨reading, rfl, closed_of_ready ready, settle_of_ready ready⟩
  | .cons first others apart => ReadsItems.append (Item.reads first) (Items.reads others) apart

theorem Branches.reads {room : Nat} {text : List Char} {branches : List Regex} :
    Branches room text branches → ReadsBranches room text branches
  | .one last => ReadsItems.last (Items.reads last)
  | .cons first others => ReadsItems.before (Items.reads first) (Branches.reads others)

end

/-- What the grammar derives is read, as the expression that the grammar gives it. -/
theorem Pattern.parse {pattern : String} {regex : Regex}
    (derived : Pattern pattern.toList regex) : Regex.parse pattern = .ok regex := by
  obtain ⟨body⟩ := derived
  obtain ⟨level, ⟨later, reads, closed, settled⟩, same⟩ :=
    body.reads .start 0 rfl rfl (by simp [start])
  have outermost : later.enclosing = [] := by
    rw [← settle_enclosing, settled]
    rfl
  rw [Regex.parse, reads]
  show later.finish = _
  rw [finish_of_closed closed outermost, settled, Level.regex_eq_choice, same]
  simp [start, Level.empty]

end Grammar

end TaggedRegex
