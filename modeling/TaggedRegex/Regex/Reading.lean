import TaggedRegex.Regex.Basic
import TaggedRegex.Regex.ParseError

set_option autoImplicit false

/-!
Patterns read one character at a time. What has been read so far is a value: the levels of groups
that are still open, and what the last characters may turn into. Each character moves it on or is
an error, so a pattern is read by a fold over its characters, and `readAll_append` lets it be read
in two parts.
-/

namespace TaggedRegex

/-- The deepest nesting of groups. -/
def maxDepth : Nat := 256

/-- What a backslash and a character stand for. -/
inductive Escape where
  | char (c : Char)
  | ranges (ranges : List CharRange)

/-- The meaning of `c`, found at `place`, after a backslash. Letters and digits without a meaning
are kept for later use; all else stands for itself. -/
def Escape.ofChar (place : Nat) (c : Char) : Except ParseError Escape :=
  match c with
  | 'd' => .ok (.ranges Regex.digits)
  | 'w' => .ok (.ranges Regex.wordChars)
  | 's' => .ok (.ranges Regex.blanks)
  | 'D' => .ok (.ranges (CharRange.complement Regex.digits))
  | 'W' => .ok (.ranges (CharRange.complement Regex.wordChars))
  | 'S' => .ok (.ranges (CharRange.complement Regex.blanks))
  | 'n' => .ok (.char '\n')
  | 't' => .ok (.char '\t')
  | 'r' => .ok (.char '\r')
  | c => if Text.isAlphanumeric c then .error (.unexpectedChar place c) else .ok (.char c)

/-- What the last characters of a class may turn into. -/
inductive ClassMode where
  /-- An item or the end of the class may follow. -/
  | item
  /-- A backslash that begins an item. -/
  | escape (place : Nat)
  /-- A character, found at `place`, that may be the lower bound of a range. -/
  | bound (place : Nat) (lo : Char)
  /-- A possible lower bound and a dash. -/
  | dash (place : Nat) (lo : Char)
  /-- A lower bound, a dash and a backslash. -/
  | dashEscape (place : Nat) (lo : Char) (escape : Nat)

/-- A class that is being read, with the place of its bracket and the ranges found so far. -/
structure ClassReading where
  opener : Nat
  negated : Bool
  ranges : List CharRange
  mode : ClassMode

/-- One level of a pattern: the branches that are complete and the items of the current one, both
newest first. -/
structure Level where
  branches : List Regex
  items : List Regex

namespace Level

def empty : Level := ⟨[], []⟩

/-- Adds an item; a sequence joins the one around it. -/
def push (level : Level) : Regex → Level
  | .cat items => { level with items := items.reverse ++ level.items }
  | item => { level with items := item :: level.items }

/-- The branch that the items make up. -/
def branch (level : Level) : Regex :=
  match level.items with
  | [item] => item
  | items => .cat items.reverse

/-- Ends the current branch and begins another one. -/
def bar (level : Level) : Level := ⟨level.branch :: level.branches, []⟩

/-- The expression that the branches make up. -/
def regex (level : Level) : Regex :=
  match level.branches with
  | [] => level.branch
  | branches => .alt (level.branch :: branches).reverse

end Level

/-- A group that is still open: the place of its parenthesis, and the level around it. -/
structure OpenGroup where
  place : Nat
  capturing : Bool
  outer : Level

/-- What the last characters may turn into. -/
inductive Mode where
  /-- An item may begin. -/
  | ready
  /-- An item that a quantifier may follow. -/
  | atom (item : Regex)
  /-- A repetition that a question mark makes lazy. -/
  | repeated (quantifier : Quantifier) (body : Regex)
  /-- An item that no quantifier may follow. -/
  | complete (item : Regex)
  /-- An opening parenthesis. -/
  | opened (place : Nat)
  /-- An opening parenthesis and a question mark. -/
  | openedQuery (place : Nat)
  /-- A backslash. -/
  | escape (place : Nat)
  /-- The opening bracket of a class. -/
  | classOpened (place : Nat)
  | inClass (reading : ClassReading)

/-- What has been read of a pattern. The innermost open group comes first. -/
structure Reading where
  level : Level
  enclosing : List OpenGroup
  mode : Mode

namespace ClassReading

/-- The class is complete. -/
def close (reading : ClassReading) : Mode :=
  .atom (.set (if reading.negated then CharRange.complement reading.ranges else reading.ranges))

/-- Adds ranges and goes on to the next item. -/
def add (reading : ClassReading) (ranges : List CharRange) : ClassReading :=
  { reading with ranges := reading.ranges ++ ranges, mode := .item }

/-- A character where an item may begin. -/
def begin (reading : ClassReading) (place : Nat) (c : Char) : Mode :=
  if c = ']' then reading.close
  else if c = '\\' then .inClass { reading with mode := .escape place }
  else .inClass { reading with mode := .bound place c }

/-- Adds a range whose lower bound was found at `place`. -/
def addRange (reading : ClassReading) (place : Nat) (lo hi : Char) : Except ParseError Mode :=
  match CharRange.ofBounds? lo hi with
  | some range => .ok (.inClass (reading.add [range]))
  | none => .error (.badRange place)

/-- Reads one character inside a class. A dash makes a range unless the class ends behind it. -/
def step (reading : ClassReading) (place : Nat) (c : Char) : Except ParseError Mode :=
  match reading.mode with
  | .item => .ok (reading.begin place c)
  | .escape start =>
      match Escape.ofChar place c with
      | .ok (.char c) => .ok (.inClass { reading with mode := .bound start c })
      | .ok (.ranges ranges) => .ok (.inClass (reading.add ranges))
      | .error error => .error error
  | .bound start lo =>
      if c = '-' then .ok (.inClass { reading with mode := .dash start lo })
      else .ok ((reading.add [.single lo]).begin place c)
  | .dash start lo =>
      if c = ']' then .ok (reading.add [.single lo, .single '-']).close
      else if c = '\\' then .ok (.inClass { reading with mode := .dashEscape start lo place })
      else reading.addRange start lo c
  | .dashEscape start lo _ =>
      match Escape.ofChar place c with
      | .ok (.char hi) => reading.addRange start lo hi
      | .ok (.ranges _) => .error (.badRange start)
      | .error error => .error error

/-- The error of a pattern that ends inside a class. -/
def unfinished (reading : ClassReading) : ParseError :=
  match reading.mode with
  | .escape start => .trailingEscape start
  | .dashEscape _ _ escape => .trailingEscape escape
  | _ => .unclosedClass reading.opener

end ClassReading

/-- The quantifier with this sign. -/
def Quantifier.ofSign? : Char → Option Quantifier
  | '*' => some .star
  | '+' => some .plus
  | '?' => some .opt
  | _ => none

namespace Reading

/-- Nothing has been read. -/
def start : Reading := ⟨.empty, [], .ready⟩

/-- Adds an item to the current branch. -/
def push (reading : Reading) (item : Regex) : Reading :=
  { reading with level := reading.level.push item, mode := .ready }

/-- Goes one level down, into a group whose parenthesis is at `place`. -/
def enter (reading : Reading) (place : Nat) (capturing : Bool) : Except ParseError Reading :=
  if reading.enclosing.length = maxDepth then .error (.tooDeep place)
  else .ok ⟨.empty, ⟨place, capturing, reading.level⟩ :: reading.enclosing, .ready⟩

/-- Goes one level up; the group becomes an item of the level around it. -/
def leave (reading : Reading) (place : Nat) : Except ParseError Reading :=
  match reading.enclosing with
  | [] => .error (.trailingParen place)
  | group :: enclosing =>
      let body := reading.level.regex
      .ok ⟨group.outer, enclosing, .atom (if group.capturing then .group body else body)⟩

/-- A character where an item may begin. -/
def begin (reading : Reading) (place : Nat) (c : Char) : Except ParseError Reading :=
  match c with
  | '|' => .ok { reading with level := reading.level.bar, mode := .ready }
  | ')' => reading.leave place
  | '*' | '+' | '?' => .error (.missingOperand place)
  | '(' => .ok { reading with mode := .opened place }
  | '[' => .ok { reading with mode := .classOpened place }
  | '.' => .ok { reading with mode := .atom .any }
  | '$' => .ok { reading with mode := .atom .atEnd }
  | '^' => .error (.unsupported place)
  | '\\' => .ok { reading with mode := .escape place }
  | c => .ok { reading with mode := .atom (.lit c) }

/-- Reads one character. -/
def step (reading : Reading) (place : Nat) (c : Char) : Except ParseError Reading :=
  match reading.mode with
  | .ready => reading.begin place c
  | .atom item =>
      match Quantifier.ofSign? c with
      | some quantifier => .ok { reading with mode := .repeated quantifier item }
      | none => (reading.push item).begin place c
  | .repeated quantifier body =>
      if c = '?' then .ok { reading with mode := .complete (.rep quantifier .lazy body) }
      else if (Quantifier.ofSign? c).isSome then .error (.unsupported place)
      else (reading.push (.rep quantifier .greedy body)).begin place c
  | .complete item =>
      if (Quantifier.ofSign? c).isSome then .error (.unsupported place)
      else (reading.push item).begin place c
  | .opened start =>
      if c = '?' then .ok { reading with mode := .openedQuery start }
      else
        match reading.enter start true with
        | .ok reading => reading.begin place c
        | .error error => .error error
  | .openedQuery start =>
      if c = ':' then reading.enter start false else .error (.unsupported start)
  | .escape _ =>
      match Escape.ofChar place c with
      | .ok (.char c) => .ok { reading with mode := .atom (.lit c) }
      | .ok (.ranges ranges) => .ok { reading with mode := .atom (.set ranges) }
      | .error error => .error error
  | .classOpened start =>
      if c = '^' then .ok { reading with mode := .inClass ⟨start, true, [], .item⟩ }
      else .ok { reading with mode := ClassReading.begin ⟨start, false, [], .item⟩ place c }
  | .inClass inner =>
      match inner.step place c with
      | .ok mode => .ok { reading with mode }
      | .error error => .error error

/-- Reads characters, of which the first is at `place`. -/
def readAll (reading : Reading) (place : Nat) : List Char → Except ParseError Reading
  | [] => .ok reading
  | c :: rest =>
      match reading.step place c with
      | .ok reading => reading.readAll (place + c.utf8Size) rest
      | .error error => .error error

/-- The number of bytes that the characters take up in UTF-8. -/
def utf8Length : List Char → Nat
  | [] => 0
  | c :: rest => c.utf8Size + utf8Length rest

theorem utf8Length_append (first second : List Char) :
    utf8Length (first ++ second) = utf8Length first + utf8Length second := by
  induction first with
  | nil => simp [utf8Length]
  | cons c rest ih => simp [utf8Length, ih, Nat.add_assoc]

theorem readAll_append (reading : Reading) (place : Nat) (first second : List Char) :
    reading.readAll place (first ++ second) =
      (reading.readAll place first).bind fun reading =>
        reading.readAll (place + utf8Length first) second := by
  induction first generalizing reading place with
  | nil => simp [readAll, utf8Length, Except.bind]
  | cons c rest ih =>
    simp only [List.cons_append, readAll]
    cases reading.step place c with
    | error error => rfl
    | ok next => simp [ih next, utf8Length, Nat.add_assoc]

/-- The last item joins its branch. -/
def settle (reading : Reading) : Reading :=
  match reading.mode with
  | .atom item => reading.push item
  | .repeated quantifier body => reading.push (.rep quantifier .greedy body)
  | .complete item => reading.push item
  | _ => reading

/-- The expression that has been read, if it is complete. -/
def finish (reading : Reading) : Except ParseError Regex :=
  match reading.mode with
  | .opened start =>
      match reading.enter start true with
      | .ok _ => .error (.unclosedGroup start)
      | .error error => .error error
  | .openedQuery start => .error (.unsupported start)
  | .escape start => .error (.trailingEscape start)
  | .classOpened start => .error (.unclosedClass start)
  | .inClass inner => .error inner.unfinished
  | .ready | .atom _ | .repeated _ _ | .complete _ =>
      match reading.enclosing with
      | group :: _ => .error (.unclosedGroup group.place)
      | [] => .ok reading.settle.level.regex

end Reading

namespace Regex

/-- The expression that a pattern stands for. Groups are numbered from 1 in the order of their
opening parentheses. -/
def parse (pattern : String) : Except ParseError Regex :=
  match Reading.start.readAll 0 pattern.toList with
  | .ok reading => reading.finish
  | .error error => .error error

end Regex

end TaggedRegex
