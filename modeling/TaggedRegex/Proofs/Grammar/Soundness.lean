import TaggedRegex.Proofs.Grammar.Completeness

set_option autoImplicit false

/-!
Whatever is read is a pattern of the grammar. Every reading that can come about has a derivation
behind it: of the groups that are still open, of the branches and items before the last character,
and of as much of the last item as has been read. A character extends it or is refused.
-/

namespace TaggedRegex

namespace Grammar

/-! ### Where items begin -/

theorem Atom.begins {room : Nat} {text : List Char} {regex : Regex} (atom : Atom room text regex) :
    ∃ c tail, text = c :: tail ∧ c ∉ signs := by
  cases atom with
  | any => exact ⟨_, _, rfl, by decide⟩
  | atEnd => exact ⟨_, _, rfl, by decide⟩
  | lit plain =>
    refine ⟨_, _, rfl, fun sign => plain ?_⟩
    simp only [signs, List.mem_cons, List.not_mem_nil, or_false] at sign
    rcases sign with rfl | rfl | rfl <;> decide
  | escapedChar escape => exact ⟨_, _, rfl, by decide⟩
  | shorthand short => exact ⟨_, _, rfl, by decide⟩
  | set items => cases items <;> exact ⟨_, _, rfl, by decide⟩
  | group body capturing => exact ⟨_, _, rfl, by decide⟩
  | bracketed body => exact ⟨_, _, rfl, by decide⟩

/-- An item begins with a character that is not the sign of a quantifier. -/
theorem Item.begins {room : Nat} {text : List Char} {items : List Regex}
    (item : Item room text items) : ∃ c tail, text = c :: tail ∧ c ∉ signs := by
  cases item with
  | once atom => exact atom.begins
  | greedy quantifier atom =>
    obtain ⟨c, tail, rfl, other⟩ := atom.begins
    exact ⟨c, _, rfl, other⟩
  | lazy quantifier atom =>
    obtain ⟨c, tail, rfl, other⟩ := atom.begins
    exact ⟨c, _, rfl, other⟩

theorem Item.items {room : Nat} {text : List Char} {items : List Regex}
    (item : Item room text items) : Items room text items := by
  have alone := Items.cons item .nil (fun c tail same => by cases same)
  rwa [List.append_nil, List.append_nil] at alone

theorem Items.begins {room : Nat} {text : List Char} {items : List Regex}
    (derived : Items room text items) {c : Char} {tail : List Char} (same : text = c :: tail) :
    c ∉ signs := by
  cases derived with
  | nil => cases same
  | cons first others apart =>
    obtain ⟨d, rest, rfl, other⟩ := first.begins
    obtain ⟨rfl, -⟩ := List.cons.inj same
    exact other

/-- Two rows of items are one. -/
theorem Items.append {room : Nat} {text added : List Char} {items more : List Regex} :
    Items room text items → Items room added more → Items room (text ++ added) (items ++ more)
  | .nil, last => last
  | @Items.cons _ _ rest _ _ first others apart, last => by
    rw [List.append_assoc, List.append_assoc]
    refine .cons first (others.append last) ?_
    intro c tail same
    cases rest with
    | nil => exact last.begins same
    | cons d rest => exact apart c rest (by rw [(List.cons.inj same).1])

/-- Nothing between parentheses begins with a question mark. -/
theorem Branches.ne_query {room : Nat} {text : List Char} {branches : List Regex}
    (derived : Branches room text branches) (tail : List Char) : text ≠ '?' :: tail := by
  intro same
  cases derived with
  | one last => exact last.begins same (by decide)
  | @cons _ text rest items more first others =>
    cases text with
    | nil => cases same
    | cons c text =>
      obtain ⟨rfl, -⟩ := List.cons.inj same
      exact first.begins rfl (by decide)

/-! ### Escapes and classes -/

theorem escapedChar_of_ofChar {place : Nat} {c meant : Char}
    (escape : Escape.ofChar place c = .ok (.char meant)) : EscapedChar c meant := by
  unfold Escape.ofChar at escape
  split at escape <;> try cases escape
  · exact .newline
  · exact .tab
  · exact .carriageReturn
  · split at escape
    · cases escape
    · rename_i other
      cases escape
      exact .self c (by simpa using other)

theorem shorthand_of_ofChar {place : Nat} {c : Char} {ranges : List CharRange}
    (escape : Escape.ofChar place c = .ok (.ranges ranges)) : Shorthand c ranges := by
  unfold Escape.ofChar at escape
  split at escape <;> try cases escape
  · exact .digit
  · exact .word
  · exact .blank
  · exact .notDigit
  · exact .notWord
  · exact .notBlank
  · split at escape <;> cases escape

/-- Whatever items `next` is the beginning of, they may follow `body`, which stands for `ranges`. -/
def Leads (body : List Char) (ranges : List CharRange) (next : List Char) : Prop :=
  ∀ (rest : List Char) (more : List CharRange), ClassItems (next ++ rest) more →
    ClassItems (body ++ (next ++ rest)) (ranges ++ more)

variable {body next : List Char} {ranges : List CharRange}

theorem leads_nil : Leads [] [] next := fun _ _ items => items

theorem Leads.weaken (leads : Leads body ranges []) (next : List Char) :
    Leads body ranges next := fun rest more items => leads (next ++ rest) more items

theorem Leads.items (leads : Leads body ranges []) : ClassItems body ranges := by
  have ends := leads [] [] .nil
  rwa [List.append_nil, List.append_nil, List.append_nil] at ends

/-- A character that is known to be no bound of a range. -/
theorem Leads.single {text : List Char} {lo c : Char} (leads : Leads body ranges text)
    (char : ClassChar text lo) (noDash : c ≠ '-') :
    Leads (body ++ text) (ranges ++ [.single lo]) [c] := by
  intro rest more items
  rw [List.append_assoc, List.append_assoc]
  apply leads
  refine ClassItems.single char items ?_
  intro d tail same
  exact noDash (List.cons.inj same).1

theorem Leads.last {text : List Char} {lo : Char} (leads : Leads body ranges text)
    (char : ClassChar text lo) : ClassItems (body ++ text) (ranges ++ [.single lo]) := by
  have ends := leads [] [.single lo] (.single char .nil (fun c tail same => by cases same))
  rwa [List.append_nil] at ends

/-- A dash right before the bracket. -/
theorem Leads.lastDash {text : List Char} {lo : Char} (leads : Leads body ranges text)
    (char : ClassChar text lo) :
    ClassItems (body ++ (text ++ ['-'])) (ranges ++ [.single lo, .single '-']) := by
  have dash : ClassItems ['-'] [.single '-'] :=
    .single (.plain '-' (by decide) (by decide)) .nil (fun c tail same => by cases same)
  exact leads ['-'] _ (.single char dash (fun c tail same => by cases same))

theorem Leads.range {range : CharRange} {lower upper : List Char}
    (leads : Leads body ranges lower) (lo : ClassChar lower range.lo)
    (hi : ClassChar upper range.hi) :
    Leads (body ++ (lower ++ '-' :: upper)) (ranges ++ [range]) [] := by
  intro rest more items
  rw [List.append_assoc, List.append_assoc, List.append_assoc, List.cons_append]
  exact leads _ _ (.range lo hi items)

theorem Leads.shorthand {c : Char} {added : List CharRange} (leads : Leads body ranges ['\\'])
    (short : Shorthand c added) : Leads (body ++ ['\\', c]) (ranges ++ added) [] := by
  intro rest more items
  rw [List.append_assoc, List.append_assoc]
  exact leads (c :: rest) _ (.shorthand short items)

end Grammar

open Grammar

/-- What has been read of the items of a class: some of them are complete, and the rest is the
beginning of the next one. -/
def ClassMode.Derived (body : List Char) (ranges : List CharRange) : ClassMode → Prop
  | .item => Leads body ranges []
  | .escape _ => ∃ before, body = before ++ ['\\'] ∧ Leads before ranges ['\\']
  | .bound _ lo => ∃ before text, body = before ++ text ∧ ClassChar text lo ∧
      Leads before ranges text
  | .dash _ lo => ∃ before text, body = before ++ (text ++ ['-']) ∧ ClassChar text lo ∧
      Leads before ranges text
  | .dashEscape _ lo _ => ∃ before text, body = before ++ (text ++ ['-', '\\']) ∧
      ClassChar text lo ∧ Leads before ranges text

namespace ClassReading

/-- What `c` makes of a class of which `body` has been read: it is complete, or it goes on. -/
inductive Continues (negated : Bool) (body : List Char) (c : Char) : Mode → Prop where
  | done {ranges : List CharRange} (bracket : c = ']') (items : ClassItems body ranges) :
      Continues negated body c (Reading.closeWith negated ranges)
  | more {later : ClassReading} (sign : later.negated = negated)
      (derived : later.mode.Derived (body ++ [c]) later.ranges) :
      Continues negated body c (.inClass later)

theorem begin_continues (reading : ClassReading) {body : List Char} {c : Char} (place : Nat)
    (ends : c = ']' → ClassItems body reading.ranges) (leads : Leads body reading.ranges [c]) :
    Continues reading.negated body c (reading.begin place c) := by
  unfold begin
  split
  · rename_i bracket
    exact .done bracket (ends bracket)
  · rename_i noBracket
    split
    · rename_i backslash
      subst backslash
      exact .more rfl ⟨body, rfl, leads⟩
    · rename_i noBackslash
      exact .more rfl ⟨body, [c], rfl, .plain c noBracket noBackslash, leads⟩

theorem addRange_continues {reading : ClassReading} {before text upper : List Char} {place : Nat}
    {lo hi c : Char} {body : List Char} {mode : Mode} (leads : Leads before reading.ranges text)
    (lower : ClassChar text lo) (char : ClassChar upper hi)
    (whole : body ++ [c] = before ++ (text ++ '-' :: upper))
    (success : reading.addRange place lo hi = .ok mode) :
    Continues reading.negated body c mode := by
  unfold addRange CharRange.ofBounds? at success
  split at success
  · rename_i range inOrder
    split at inOrder
    · rename_i ordered
      obtain rfl := Option.some.inj inOrder
      obtain rfl := Except.ok.inj success
      refine .more rfl ?_
      rw [whole]
      have first : ClassChar text (CharRange.mk lo hi ordered).lo := lower
      exact leads.range first char
    · cases inOrder
  · cases success

/-- One character more of a class. -/
theorem step_continues {reading : ClassReading} {body : List Char} {place : Nat} {c : Char}
    {mode : Mode} (derived : reading.mode.Derived body reading.ranges)
    (success : reading.step place c = .ok mode) : Continues reading.negated body c mode := by
  unfold step at success
  cases at_ : reading.mode with
  | item =>
    rw [at_] at derived success
    obtain rfl := Except.ok.inj success
    exact begin_continues reading place (fun _ => derived.items) (derived.weaken [c])
  | escape start =>
    rw [at_] at derived success
    obtain ⟨before, rfl, leads⟩ := derived
    dsimp only at success
    split at success
    · rename_i meant escape
      obtain rfl := Except.ok.inj success
      exact .more rfl ⟨before, ['\\', c], by simp, .escaped (escapedChar_of_ofChar escape),
        fun rest more items => leads (c :: rest) more items⟩
    · rename_i ranges escape
      obtain rfl := Except.ok.inj success
      refine .more rfl ?_
      rw [List.append_assoc]
      exact leads.shorthand (shorthand_of_ofChar escape)
    · cases success
  | bound start lo =>
    rw [at_] at derived success
    obtain ⟨before, text, rfl, char, leads⟩ := derived
    dsimp only at success
    split at success
    · rename_i dash
      obtain rfl := Except.ok.inj success
      subst dash
      exact .more rfl ⟨before, text, by simp, char, leads⟩
    · rename_i noDash
      obtain rfl := Except.ok.inj success
      exact begin_continues (reading.add [.single lo]) place
        (fun _ => leads.last char) (leads.single char noDash)
  | dash start lo =>
    rw [at_] at derived success
    obtain ⟨before, text, rfl, char, leads⟩ := derived
    dsimp only at success
    split at success
    · rename_i bracket
      obtain rfl := Except.ok.inj success
      exact .done bracket (leads.lastDash char)
    · rename_i noBracket
      split at success
      · rename_i backslash
        obtain rfl := Except.ok.inj success
        subst backslash
        exact .more rfl ⟨before, text, by simp, char, leads⟩
      · rename_i noBackslash
        exact addRange_continues leads char (.plain c noBracket noBackslash) (by simp) success
  | dashEscape start lo escaped =>
    rw [at_] at derived success
    obtain ⟨before, text, rfl, char, leads⟩ := derived
    dsimp only at success
    split at success
    · rename_i hi escape
      exact addRange_continues leads char (.escaped (escapedChar_of_ofChar escape)) (by simp)
        success
    · cases success
    · cases success

end ClassReading

/-! ### Levels and open groups -/

/-- What has been read of a level, up to the last complete item: some branches, then items. -/
def Level.Derived (room : Nat) (text : List Char) (level : Level) : Prop :=
  ∃ earlier current, text = earlier ++ current ∧ Items room current level.items.reverse ∧
    ∀ (rest : List Char) (more : List Regex), Branches room rest more →
      Branches room (earlier ++ rest) (level.branches.reverse ++ more)

namespace Level

variable {room : Nat} {text added : List Char} {level : Level}

theorem derived_empty : Level.Derived room [] .empty :=
  ⟨[], [], rfl, .nil, fun _ _ branches => branches⟩

theorem Derived.extend {items : List Regex} (derived : level.Derived room text)
    (item : Item room added items) : (level.extend items).Derived room (text ++ added) := by
  obtain ⟨earlier, current, rfl, row, branches⟩ := derived
  refine ⟨earlier, current ++ added, List.append_assoc .., ?_, branches⟩
  simpa [Level.extend] using row.append item.items

theorem Derived.bar (derived : level.Derived room text) :
    level.bar.Derived room (text ++ ['|']) := by
  obtain ⟨earlier, current, rfl, row, branches⟩ := derived
  refine ⟨earlier ++ current ++ ['|'], [], (List.append_nil _).symm, .nil, ?_⟩
  intro rest more derived
  have longer := branches _ _ (.cons row derived)
  simpa [Level.bar, branch_eq_sequence] using longer

theorem Derived.branches (derived : level.Derived room text) :
    Branches room text (level.branch :: level.branches).reverse := by
  obtain ⟨earlier, current, rfl, row, branches⟩ := derived
  have whole := branches _ _ (.one row)
  rwa [← branch_eq_sequence, ← List.reverse_cons] at whole

end Level

/-- How a group begins. -/
def OpenGroup.opener (group : OpenGroup) : List Char :=
  if group.capturing then ['('] else ['(', '?', ':']

/-- What has been read up to the last complete item: the levels around the groups that are still
open, each with the beginning of its group, and the innermost level. -/
def Level.Nested (level : Level) : List OpenGroup → List Char → Prop
  | [], text => level.Derived maxDepth text
  | group :: enclosing, text => enclosing.length < maxDepth ∧ ∃ before inner,
      text = before ++ (group.opener ++ inner) ∧ group.outer.Nested enclosing before ∧
      level.Derived (maxDepth - (enclosing.length + 1)) inner

/-- What has been read of the last item, which may open `room` groups. -/
def Mode.Derived (room : Nat) (text : List Char) : Mode → Prop
  | .ready => text = []
  | .atom item => Atom room text item
  | .repeated quantifier body => ∃ before,
      text = before ++ [Regex.Quantifier.sign quantifier] ∧ Atom room before body
  | .complete item => ∃ before quantifier body,
      text = before ++ [Regex.Quantifier.sign quantifier, '?'] ∧ Atom room before body ∧
      item = .rep quantifier .lazy body
  | .opened _ => text = ['(']
  | .openedQuery _ => text = ['(', '?']
  | .escape _ => text = ['\\']
  | .classOpened _ => text = ['[']
  | .inClass reading => ∃ body, text = (if reading.negated then ['[', '^'] else ['[']) ++ body ∧
      reading.mode.Derived body reading.ranges ∧
      (reading.negated = false → ∃ first tail, body = first :: tail ∧ first ≠ '^')

namespace Reading

/-- The reading has a derivation behind it. -/
def Derived (reading : Reading) (text : List Char) : Prop :=
  ∃ settled pending, text = settled ++ pending ∧
    reading.level.Nested reading.enclosing settled ∧
    reading.mode.Derived (maxDepth - reading.enclosing.length) pending

theorem nested_extend {level : Level} {enclosing : List OpenGroup} {text added : List Char}
    {items : List Regex} (nested : level.Nested enclosing text)
    (item : Item (maxDepth - enclosing.length) added items) :
    (level.extend items).Nested enclosing (text ++ added) := by
  cases enclosing with
  | nil => exact Level.Derived.extend nested item
  | cons group enclosing =>
    obtain ⟨shallow, before, inner, rfl, outer, derived⟩ := nested
    exact ⟨shallow, before, inner ++ added, by simp, outer, derived.extend item⟩

theorem nested_bar {level : Level} {enclosing : List OpenGroup} {text : List Char}
    (nested : level.Nested enclosing text) : level.bar.Nested enclosing (text ++ ['|']) := by
  cases enclosing with
  | nil => exact Level.Derived.bar nested
  | cons group enclosing =>
    obtain ⟨shallow, before, inner, rfl, outer, derived⟩ := nested
    exact ⟨shallow, before, inner ++ ['|'], by simp, outer, derived.bar⟩

variable {reading : Reading} {text : List Char}

/-- The last item joins its sequence. -/
theorem Derived.settle (derived : reading.Derived text) (closed : reading.mode.Closed) :
    reading.settle.level.Nested reading.enclosing text := by
  obtain ⟨settled, pending, rfl, nested, last⟩ := derived
  have joined : ∀ {items : List Regex}, Item (maxDepth - reading.enclosing.length) pending items →
      (reading.level.extend items).Nested reading.enclosing (settled ++ pending) :=
    fun item => nested_extend nested item
  unfold Reading.settle
  cases at_ : reading.mode with
  | ready =>
    rw [at_] at last
    obtain rfl : pending = [] := last
    rw [List.append_nil]
    exact nested
  | atom item =>
    rw [at_] at last
    show (reading.level.push item).Nested _ _
    rw [Level.push_eq_extend]
    exact joined (.once last)
  | repeated quantifier body =>
    rw [at_] at last
    obtain ⟨before, rfl, atom⟩ := last
    exact joined (.greedy quantifier atom)
  | complete item =>
    rw [at_] at last
    obtain ⟨before, quantifier, body, rfl, atom, rfl⟩ := last
    exact joined (.lazy quantifier atom)
  | opened | openedQuery | escape | classOpened | inClass =>
    rw [at_] at closed
    exact closed.elim

/-- A parenthesis that closes a group makes an atom of the level around it. -/
theorem leave_derived {next : Reading} {place : Nat}
    (nested : reading.level.Nested reading.enclosing text)
    (success : reading.leave place = .ok next) : next.Derived (text ++ [')']) := by
  obtain ⟨level, enclosing, mode⟩ := reading
  unfold leave at success
  cases enclosing with
  | nil => cases success
  | cons group enclosing =>
    obtain rfl := Except.ok.inj success
    obtain ⟨shallow, before, inner, rfl, outer, derived⟩ := nested
    refine ⟨before, group.opener ++ inner ++ [')'], by simp, outer, ?_⟩
    have room : maxDepth - enclosing.length = maxDepth - (enclosing.length + 1) + 1 := by omega
    have body := derived.branches
    show Atom _ _ (if group.capturing then .group level.regex else level.regex)
    rw [Level.regex_eq_choice, room]
    unfold OpenGroup.opener
    split
    · exact .group body body.ne_query
    · exact .bracketed body

/-- A character where an item may begin. -/
theorem begin_derived {next : Reading} {place : Nat} {c : Char}
    (nested : reading.level.Nested reading.enclosing text)
    (success : reading.begin place c = .ok next) : next.Derived (text ++ [c]) := by
  unfold begin at success
  split at success <;> try (obtain rfl := Except.ok.inj success)
  · exact ⟨_, [], (List.append_nil _).symm, nested_bar nested, rfl⟩
  · exact leave_derived nested success
  · cases success
  · cases success
  · cases success
  · exact ⟨text, _, rfl, nested, rfl⟩
  · exact ⟨text, _, rfl, nested, rfl⟩
  · exact ⟨text, _, rfl, nested, .any⟩
  · exact ⟨text, _, rfl, nested, .atEnd⟩
  · cases success
  · exact ⟨text, _, rfl, nested, rfl⟩
  · refine ⟨text, _, rfl, nested, .lit ?_⟩
    simp_all [reserved]

/-- The beginning of a group begins a level. -/
theorem enter_nested {next : Reading} {place : Nat} {capturing : Bool}
    (nested : reading.level.Nested reading.enclosing text)
    (success : reading.enter place capturing = .ok next) :
    next.mode = .ready ∧ next.level.Nested next.enclosing
      (text ++ (OpenGroup.mk place capturing reading.level).opener) := by
  unfold enter at success
  split at success
  · cases success
  · rename_i shallow
    obtain rfl := Except.ok.inj success
    refine ⟨rfl, ?_, text, [], by simp, nested, Level.derived_empty⟩
    have within : reading.enclosing.length ≤ maxDepth := by
      cases enclosing : reading.enclosing with
      | nil => exact Nat.zero_le _
      | cons group outer =>
        rw [enclosing] at nested
        exact nested.1
    omega

/-- What a character makes of a class. -/
theorem continues_derived {negated : Bool} {body : List Char} {c : Char} {mode : Mode} {room : Nat}
    (continues : ClassReading.Continues negated body c mode)
    (first : negated = false → ∃ first tail, body ++ [c] = first :: tail ∧ first ≠ '^') :
    mode.Derived room ((if negated then ['[', '^'] else ['[']) ++ (body ++ [c])) := by
  cases continues with
  | @done ranges bracket items =>
    subst bracket
    cases negated with
    | true => exact .set (.negative items)
    | false =>
      refine .set (.positive items ?_)
      rintro tail rfl
      obtain ⟨c, rest, same, noCaret⟩ := first rfl
      exact noCaret (List.cons.inj same).1.symm
  | @more later sign derived =>
    exact ⟨body ++ [c], by rw [sign], derived, fun positive => first (sign ▸ positive)⟩

theorem eq_sign_of_ofSign? {c : Char} {quantifier : Quantifier}
    (found : Quantifier.ofSign? c = some quantifier) : c = Regex.Quantifier.sign quantifier := by
  unfold Quantifier.ofSign? at found
  split at found <;> cases found <;> rfl

/-- A character that ends the last item. -/
theorem begin_settle_derived {next : Reading} {place : Nat} {c : Char}
    (derived : reading.Derived text) (closed : reading.mode.Closed)
    (success : reading.settle.begin place c = .ok next) : next.Derived (text ++ [c]) := by
  have nested := derived.settle closed
  rw [← settle_enclosing] at nested
  exact begin_derived nested success

/-- A character after an item that may be the last one. -/
theorem step_closed_derived {next : Reading} {place : Nat} {c : Char}
    (derived : reading.Derived text) (closed : reading.mode.Closed)
    (success : reading.step place c = .ok next) : next.Derived (text ++ [c]) := by
  -- A character that is not the sign of a quantifier is read as if the item had been settled.
  have onwards : reading.settle.begin place c = .ok next → next.Derived (text ++ [c]) :=
    begin_settle_derived derived closed
  obtain ⟨settled, pending, rfl, nested, last⟩ := derived
  unfold Reading.settle at onwards
  unfold step at success
  cases at_ : reading.mode with
  | ready =>
    rw [at_] at success onwards
    exact onwards success
  | atom item =>
    rw [at_] at last success onwards
    dsimp only at success
    split at success
    · rename_i quantifier found
      obtain rfl := Except.ok.inj success
      rw [List.append_assoc]
      exact ⟨settled, _, rfl, nested, pending, by rw [eq_sign_of_ofSign? found], last⟩
    · exact onwards success
  | repeated quantifier body =>
    rw [at_] at last success onwards
    obtain ⟨before, rfl, atom⟩ := last
    dsimp only at success
    split at success
    · rename_i query
      obtain rfl := Except.ok.inj success
      rw [List.append_assoc]
      exact ⟨settled, _, rfl, nested, before, quantifier, body, by simp [query], atom, rfl⟩
    · split at success
      · cases success
      · exact onwards success
  | complete item =>
    rw [at_] at success onwards
    dsimp only at success
    split at success
    · cases success
    · exact onwards success
  | opened | openedQuery | escape | classOpened | inClass =>
    rw [at_] at closed
    exact closed.elim

/-- The character after a parenthesis may already belong to what stands in the group. -/
theorem step_opened_derived {next : Reading} {start place : Nat} {c : Char}
    (nested : reading.level.Nested reading.enclosing text) (at_ : reading.mode = .opened start)
    (success : reading.step place c = .ok next) : next.Derived (text ++ ['(', c]) := by
  unfold step at success
  rw [at_] at success
  dsimp only at success
  split at success
  · rename_i query
    obtain rfl := Except.ok.inj success
    exact ⟨text, _, rfl, nested, by rw [query]; rfl⟩
  · split at success
    · rename_i inner entered
      have begun := begin_derived (enter_nested nested entered).2 success
      simpa [OpenGroup.opener] using begun
    · cases success

theorem step_openedQuery_derived {next : Reading} {start place : Nat} {c : Char}
    (nested : reading.level.Nested reading.enclosing text)
    (at_ : reading.mode = .openedQuery start) (success : reading.step place c = .ok next) :
    next.Derived (text ++ ['(', '?', c]) := by
  unfold step at success
  rw [at_] at success
  dsimp only at success
  split at success
  · rename_i colon
    have entered := enter_nested nested success
    refine ⟨_, [], (List.append_nil _).symm, ?_, ?_⟩
    · simpa [OpenGroup.opener, colon] using entered.2
    · rw [entered.1]
      rfl
  · cases success

/-- A character that goes on with an escape or a class stays within the item. -/
theorem step_item_derived {next : Reading} {place : Nat} {c : Char} {room : Nat}
    {pending : List Char} (last : reading.mode.Derived room pending)
    (inside : (∃ start, reading.mode = .escape start) ∨
      (∃ start, reading.mode = .classOpened start) ∨ ∃ inner, reading.mode = .inClass inner)
    (success : reading.step place c = .ok next) :
    ∃ mode, next = { reading with mode } ∧ mode.Derived room (pending ++ [c]) := by
  unfold step at success
  rcases inside with ⟨start, at_⟩ | ⟨start, at_⟩ | ⟨inner, at_⟩
  · rw [at_] at last success
    obtain rfl : pending = ['\\'] := last
    dsimp only at success
    split at success
    · rename_i meant escape
      obtain rfl := Except.ok.inj success
      exact ⟨_, rfl, .escapedChar (escapedChar_of_ofChar escape)⟩
    · rename_i ranges escape
      obtain rfl := Except.ok.inj success
      exact ⟨_, rfl, .shorthand (shorthand_of_ofChar escape)⟩
    · cases success
  · rw [at_] at last success
    obtain rfl : pending = ['['] := last
    dsimp only at success
    split at success
    · rename_i caret
      obtain rfl := Except.ok.inj success
      exact ⟨_, rfl, [], by simp [caret], leads_nil, fun positive => by cases positive⟩
    · rename_i noCaret
      obtain rfl := Except.ok.inj success
      have none : c = ']' → ClassItems [] [] := fun _ => .nil
      have continues := ClassReading.begin_continues ⟨start, false, [], .item⟩ place none leads_nil
      exact ⟨_, rfl, continues_derived continues fun _ => ⟨c, [], rfl, noCaret⟩⟩
  · rw [at_] at last success
    obtain ⟨body, rfl, derived, first⟩ := last
    dsimp only at success
    split at success
    · rename_i mode stepped
      obtain rfl := Except.ok.inj success
      refine ⟨mode, rfl, ?_⟩
      rw [List.append_assoc]
      apply continues_derived (ClassReading.step_continues derived stepped)
      intro positive
      obtain ⟨c, tail, rfl, noCaret⟩ := first positive
      exact ⟨c, tail ++ _, rfl, noCaret⟩
    · cases success

/-- One character more. -/
theorem step_derived {next : Reading} {place : Nat} {c : Char} (derived : reading.Derived text)
    (success : reading.step place c = .ok next) : next.Derived (text ++ [c]) := by
  cases at_ : reading.mode with
  | ready | atom | repeated | complete =>
    have closed : reading.mode.Closed := by
      rw [at_]
      trivial
    exact step_closed_derived derived closed success
  | opened start =>
    obtain ⟨settled, pending, rfl, nested, last⟩ := derived
    rw [at_] at last
    obtain rfl : pending = ['('] := last
    rw [List.append_assoc]
    exact step_opened_derived nested at_ success
  | openedQuery start =>
    obtain ⟨settled, pending, rfl, nested, last⟩ := derived
    rw [at_] at last
    obtain rfl : pending = ['(', '?'] := last
    rw [List.append_assoc]
    exact step_openedQuery_derived nested at_ success
  | escape | classOpened | inClass =>
    obtain ⟨settled, pending, rfl, nested, last⟩ := derived
    obtain ⟨mode, rfl, longer⟩ := step_item_derived last (by simp [at_]) success
    exact ⟨settled, pending ++ [c], List.append_assoc .., nested, longer⟩

/-- A whole text. -/
theorem readAll_derived {later : Reading} {place : Nat} {rest : List Char}
    (derived : reading.Derived text) (success : reading.readAll place rest = .ok later) :
    later.Derived (text ++ rest) := by
  induction rest generalizing reading place text with
  | nil =>
    obtain rfl := Except.ok.inj success
    rwa [List.append_nil]
  | cons c rest ih =>
    rw [readAll] at success
    split at success
    · rename_i next stepped
      have onwards := ih (step_derived derived stepped) success
      rwa [List.append_assoc, List.singleton_append] at onwards
    · cases success

theorem start_derived : start.Derived [] := ⟨[], [], rfl, Level.derived_empty, rfl⟩

/-- A reading may end only where no group is open and nothing is half read. -/
theorem of_finish_eq_ok {regex : Regex} (success : reading.finish = .ok regex) :
    reading.mode.Closed ∧ reading.enclosing = [] := by
  unfold finish at success
  cases at_ : reading.mode with
  | ready | atom | repeated | complete =>
    refine ⟨trivial, ?_⟩
    rw [at_] at success
    dsimp only at success
    split at success
    · cases success
    · assumption
  | opened =>
    rw [at_] at success
    dsimp only at success
    split at success <;> cases success
  | openedQuery | escape | classOpened | inClass =>
    rw [at_] at success
    cases success

end Reading

namespace Grammar

/-- What is read is derived by the grammar. -/
theorem Pattern.of_parse {pattern : String} {regex : Regex}
    (success : Regex.parse pattern = .ok regex) : Pattern pattern.toList regex := by
  unfold Regex.parse at success
  split at success
  · rename_i later reads
    have derived := Reading.readAll_derived Reading.start_derived reads
    obtain ⟨closed, outermost⟩ := Reading.of_finish_eq_ok success
    rw [Reading.finish_of_closed closed outermost] at success
    obtain rfl := Except.ok.inj success
    have nested := derived.settle closed
    rw [outermost] at nested
    rw [Level.regex_eq_choice]
    exact .branches (Level.Derived.branches nested)
  · cases success

end Grammar

namespace Regex

/-- The parser accepts exactly the patterns of the grammar, and builds the expression that the
grammar gives them. -/
theorem parse_eq_ok_iff_derived (pattern : String) (regex : Regex) :
    parse pattern = .ok regex ↔ Grammar.Pattern pattern.toList regex :=
  ⟨Grammar.Pattern.of_parse, Grammar.Pattern.parse⟩

end Regex

end TaggedRegex
