import TaggedRegex.Proofs.Grammar.Landmarks

set_option autoImplicit false

/-!
Where the last item of a reading begins: the place that the reading remembers of it, and the text
from there on. For a class this includes the item that may become a range.
-/

namespace TaggedRegex

open Grammar Reading

/-- The text ends with `sign`, which is at `place` and begins where the text is plain. -/
def EndsWith (text : List Char) (place : Nat) (sign : List Char) : Prop :=
  ∃ before, text = before ++ sign ∧ place = utf8Length before ∧ surroundings before = .plain

theorem EndsWith.snoc {text sign : List Char} {place : Nat} (ends : EndsWith text place sign)
    (c : Char) : EndsWith (text ++ [c]) place (sign ++ [c]) := by
  obtain ⟨before, rfl, rest⟩ := ends
  exact ⟨before, List.append_assoc .., rest⟩

/-- A branch begins behind the text. -/
def BeginsBranch (text : List Char) : Prop :=
  text = [] ∨ ∃ place, ∃ sign ∈ [['|'], ['('], ['(', '?', ':']], EndsWith text place sign

/-- The body of a class, which begins at `start`, ends with a character that may begin a range, and
with `behind`. The character was found at `place` and stands for `lo`; the items before it are
complete, and it would be an item of its own if nothing followed. -/
def BeginsRange (start : Nat) (body : List Char) (ranges : List CharRange) (place : Nat) (lo : Char)
    (behind : List Char) : Prop :=
  ∃ before text, body = before ++ (text ++ behind) ∧ place = start + utf8Length before ∧
    ClassChar text lo ∧ ClassItems before ranges ∧
    ClassItems (before ++ text) (ranges ++ [.single lo])

theorem BeginsRange.snoc {start place : Nat} {body behind : List Char} {ranges : List CharRange}
    {lo : Char} (begins : BeginsRange start body ranges place lo behind) (c : Char) :
    BeginsRange start (body ++ [c]) ranges place lo (behind ++ [c]) := by
  obtain ⟨before, text, rfl, rest⟩ := begins
  exact ⟨before, text, by simp, rest⟩

/-- Where the last item of a class begins, if it is not complete. -/
def ClassMode.Placed (start : Nat) (body : List Char) (ranges : List CharRange) : ClassMode → Prop
  | .item => True
  | .escape place => ∃ before, body = before ++ ['\\'] ∧ place = start + utf8Length before ∧
      ClassItems before ranges
  | .bound place lo => BeginsRange start body ranges place lo []
  | .dash place lo => BeginsRange start body ranges place lo ['-']
  | .dashEscape place lo backslash => BeginsRange start body ranges place lo ['-', '\\'] ∧
      backslash + 1 = start + utf8Length body

/-- How a class begins. -/
def ClassReading.opening (inner : ClassReading) : List Char :=
  if inner.negated then ['[', '^'] else ['[']

/-- Where the last item begins, if it is not complete. -/
def Mode.Placed (text : List Char) : Mode → Prop
  | .ready => BeginsBranch text
  | .atom _ | .repeated _ _ | .complete _ => True
  | .opened place => EndsWith text place ['(']
  | .openedQuery place => EndsWith text place ['(', '?']
  | .escape place => EndsWith text place ['\\']
  | .classOpened place => EndsWith text place ['[']
  | .inClass inner => ∃ body, EndsWith text inner.opener (inner.opening ++ body) ∧
      (inner.negated = false → ∃ first tail, body = first :: tail ∧ first ≠ '^') ∧
      inner.mode.Derived body inner.ranges ∧
      inner.mode.Placed (inner.opener + utf8Length inner.opening) body inner.ranges

/-- A backslash that has just been read is the last character. -/
theorem Mode.Placed.ends_backslash {mode : Mode} {text : List Char} {start : Nat}
    (placed : mode.Placed text) (backslash : mode.backslash = some start) :
    ∃ before, text = before ++ ['\\'] ∧ start = utf8Length before := by
  cases mode with
  | escape place =>
    obtain rfl := Option.some.inj backslash
    obtain ⟨before, same, place, -⟩ := placed
    exact ⟨before, same, place⟩
  | inClass inner =>
    obtain ⟨body, ⟨outer, rfl, opener, -⟩, -, -, inside⟩ := placed
    change inner.mode.backslash = some start at backslash
    cases last : inner.mode with
    | escape place =>
      rw [last] at backslash inside
      obtain rfl := Option.some.inj backslash
      obtain ⟨before, rfl, place, -⟩ := inside
      refine ⟨outer ++ (inner.opening ++ before), by simp, ?_⟩
      rw [place, opener, utf8Length_append, utf8Length_append, Nat.add_assoc]
    | dashEscape place lo backslash_ =>
      rw [last] at backslash inside
      obtain rfl := Option.some.inj backslash
      obtain ⟨⟨before, item, rfl, -⟩, length⟩ := inside
      refine ⟨outer ++ (inner.opening ++ (before ++ (item ++ ['-']))), by simp, ?_⟩
      have one : utf8Length ['-', '\\'] = utf8Length ['-'] + 1 := rfl
      simp only [utf8Length_append, one] at length ⊢
      omega
    | item | bound | dash =>
      rw [last] at backslash
      cases backslash
  | ready | atom | repeated | complete | opened | openedQuery | classOpened => cases backslash

namespace ClassReading

variable {inner later : ClassReading} {start : Nat} {body : List Char} {c : Char}

theorem placed_begin (items : ClassItems body inner.ranges) (leads : Leads body inner.ranges [c])
    (begun : inner.begin (start + utf8Length body) c = .inClass later) :
    later.mode.Placed start (body ++ [c]) later.ranges := by
  unfold begin at begun
  split at begun
  · cases begun
  · rename_i noBracket
    split at begun
    · rename_i backslash
      obtain rfl := Mode.inClass.inj begun
      exact ⟨body, by rw [backslash], rfl, items⟩
    · rename_i noBackslash
      obtain rfl := Mode.inClass.inj begun
      have char : ClassChar [c] c := .plain c noBracket noBackslash
      exact ⟨body, [c], by rw [List.append_nil], rfl, char, items, leads.last char⟩

/-- The bracket of a class stays where it is. -/
theorem opener_of_begin {place : Nat} (begun : inner.begin place c = .inClass later) :
    later.opener = inner.opener := by
  unfold begin at begun
  split at begun
  · cases begun
  · split at begun <;> cases begun <;> rfl

theorem opener_of_step {place : Nat} (success : inner.step place c = .ok (.inClass later)) :
    later.opener = inner.opener := by
  have move := inner.move_step place c
  rw [success] at move
  generalize same : Mode.inClass later = mode at move
  cases move with
  | item at_ => exact opener_of_begin same.symm
  | @single start lo at_ noDash =>
    have begun : (inner.add [.single lo]).begin place c = .inClass later := same.symm
    have kept := opener_of_begin begun
    exact kept
  | lastDash at_ bracket => cases same
  | escaped | shorthand | dash | dashEscape | range =>
    obtain rfl := Mode.inClass.inj same
    rfl

theorem placed_step (derived : inner.mode.Derived body inner.ranges)
    (placed : inner.mode.Placed start body inner.ranges)
    (success : inner.step (start + utf8Length body) c = .ok (.inClass later)) :
    later.mode.Placed start (body ++ [c]) later.ranges := by
  have move := inner.move_step (start + utf8Length body) c
  rw [success] at move
  generalize same : Mode.inClass later = mode at move
  cases move with
  | item at_ =>
    rw [at_] at derived
    exact placed_begin derived.items (derived.weaken [c]) same.symm
  | escaped at_ escape =>
    rename_i meant
    obtain rfl := Mode.inClass.inj same
    rw [at_] at derived placed
    obtain ⟨before, rfl, place, items⟩ := placed
    obtain ⟨other, same, leads⟩ := derived
    obtain rfl := List.append_cancel_right same
    have char : ClassChar ['\\', c] meant := .escaped (escapedChar_of_ofChar escape)
    have longer : Leads before inner.ranges ['\\', c] := fun rest more items =>
      leads (c :: rest) more items
    exact ⟨before, ['\\', c], by simp, place, char, items, longer.last char⟩
  | shorthand at_ escape =>
    obtain rfl := Mode.inClass.inj same
    trivial
  | dash at_ dash =>
    obtain rfl := Mode.inClass.inj same
    rw [at_] at placed
    rw [dash]
    exact BeginsRange.snoc placed '-'
  | single at_ noDash =>
    rw [at_] at derived placed
    obtain ⟨before, text, joined, -, -, -, items⟩ := placed
    rw [List.append_nil] at joined
    rw [← joined] at items
    obtain ⟨other, lower, joined, char, leads⟩ := derived
    have onwards := leads.single char noDash
    rw [← joined] at onwards
    have begun : (inner.add [.single _]).begin (start + utf8Length body) c = .inClass later :=
      same.symm
    exact placed_begin items onwards begun
  | lastDash at_ bracket => cases same
  | dashEscape at_ backslash =>
    obtain rfl := Mode.inClass.inj same
    rw [at_] at placed
    subst backslash
    refine ⟨BeginsRange.snoc placed '\\', ?_⟩
    rw [utf8Length_append, ← Nat.add_assoc]
    rfl
  | range bounds ordered =>
    obtain rfl := Mode.inClass.inj same
    trivial

end ClassReading

namespace Reading

variable {reading next : Reading} {text : List Char} {c : Char}

theorem placed_begin (plain : surroundings text = .plain)
    (success : reading.begin (utf8Length text) c = .ok next) : next.mode.Placed (text ++ [c]) := by
  unfold begin at success
  split at success <;> try (obtain rfl := Except.ok.inj success)
  · exact Or.inr ⟨utf8Length text, _, List.mem_cons_self, text, rfl, rfl, plain⟩
  · unfold leave at success
    split at success
    · cases success
    · obtain rfl := Except.ok.inj success
      trivial
  · cases success
  · cases success
  · cases success
  · exact ⟨text, rfl, rfl, plain⟩
  · exact ⟨text, rfl, rfl, plain⟩
  · trivial
  · trivial
  · cases success
  · exact ⟨text, rfl, rfl, plain⟩
  · trivial

/-- What a character makes of a class. -/
theorem placed_class {inner : ClassReading} {body : List Char} {mode : Mode}
    (ends : EndsWith text inner.opener (inner.opening ++ body))
    (continues : ClassReading.Continues inner.negated body c mode)
    (first : inner.negated = false → ∃ first tail, body ++ [c] = first :: tail ∧ first ≠ '^')
    (kept : ∀ later, mode = .inClass later → later.opener = inner.opener ∧ later.mode.Placed
      (inner.opener + utf8Length inner.opening) (body ++ [c]) later.ranges) :
    mode.Placed (text ++ [c]) := by
  cases continues with
  | done bracket items => trivial
  | @more later sign derived =>
    obtain ⟨opener, placed⟩ := kept later rfl
    have opening : later.opening = inner.opening := by
      rw [ClassReading.opening, sign, ClassReading.opening]
    refine ⟨body ++ [c], ?_, fun positive => first (sign ▸ positive), derived, ?_⟩
    · rw [opener, opening, ← List.append_assoc]
      exact ends.snoc c
    · rw [opener, opening]
      exact placed

theorem placed_step (plain : surroundings text = reading.mode.surroundings)
    (placed : reading.mode.Placed text)
    (success : reading.step (utf8Length text) c = .ok next) : next.mode.Placed (text ++ [c]) := by
  have move := reading.move_step (utf8Length text) c
  rw [success] at move
  cases move with
  | begin awaits begun =>
    refine placed_begin ?_ begun
    cases awaits with
    | closed closed first =>
      have outside := congrArg Outline.surroundings (outline_of_closed closed 0)
      exact plain.trans outside
    | opened at_ noQuery room => rw [plain, at_]; rfl
  | quantified | lazy | escapedChar | shorthand => trivial
  | query at_ query =>
    rw [at_] at placed
    rw [query]
    exact EndsWith.snoc placed '?'
  | bracketed at_ colon room =>
    rw [at_] at placed
    rw [colon]
    exact Or.inr ⟨_, ['(', '?', ':'], by decide, EndsWith.snoc placed ':'⟩
  | @negated start at_ caret =>
    rw [at_] at placed
    subst caret
    exact ⟨[], EndsWith.snoc placed '^', fun positive => (Bool.noConfusion positive), leads_nil,
      trivial⟩
  | @first start at_ noCaret =>
    rw [at_] at placed
    have ends : EndsWith text start (['['] ++ []) := placed
    have length : utf8Length text = start + utf8Length ['['] + utf8Length [] := by
      obtain ⟨before, rfl, rfl, -⟩ := placed
      rw [utf8Length_append]
      rfl
    have continues := ClassReading.begin_continues (c := c) ⟨start, false, [], .item⟩
      (utf8Length text) (fun _ => .nil) leads_nil
    refine placed_class ends continues (fun _ => ⟨c, [], rfl, noCaret⟩) fun later begun => ?_
    refine ⟨ClassReading.opener_of_begin begun, ?_⟩
    rw [length] at begun
    exact ClassReading.placed_begin .nil leads_nil begun
  | inside at_ stepped =>
    rw [at_] at placed
    obtain ⟨body, ends, first, derived, inside⟩ := placed
    have continues := ClassReading.step_continues derived stepped
    refine placed_class ends continues ?_ fun later same => ?_
    · intro positive
      obtain ⟨c, tail, rfl, noCaret⟩ := first positive
      exact ⟨c, tail ++ _, rfl, noCaret⟩
    · subst same
      -- Inside the class, places count from behind its opening.
      refine ⟨ClassReading.opener_of_step stepped, ClassReading.placed_step derived inside ?_⟩
      obtain ⟨before, rfl, place, -⟩ := ends
      rwa [utf8Length_append, utf8Length_append, ← Nat.add_assoc, ← place] at stepped

theorem Reads.placed (reads : Reads text reading) : reading.mode.Placed text := by
  induction text using List.reverseRecOn generalizing reading with
  | nil =>
    obtain rfl := Except.ok.inj reads
    exact Or.inl rfl
  | append_singleton text c ih =>
    obtain ⟨middle, early, stepped⟩ := reads_append_singleton.1 reads
    exact placed_step early.surroundings_eq (ih early) stepped

end Reading

end TaggedRegex
