import TaggedRegex.Regex.Basic

set_option autoImplicit false

/-!
Regular expressions as text.
-/

namespace TaggedRegex.Regex

/-- The characters with a meaning of their own outside classes. -/
def metaChars : List Char :=
  ['\\', '.', '[', ']', '(', ')', '|', '*', '+', '?', '$', '^', '\x7b', '\x7d']

/-- The characters with a meaning of their own inside classes. -/
def classMetaChars : List Char := ['\\', ']', '[', '^', '-']

/-- A character written so that it stands for itself, where those in `special` need a backslash. -/
def escapedChar (special : List Char) (c : Char) : List Char :=
  if c = '\n' then ['\\', 'n']
  else if c = '\t' then ['\\', 't']
  else if c = '\r' then ['\\', 'r']
  else if c ∈ special then ['\\', c]
  else [c]

/-- A range as an item of a class; a range of one character is written as that character. -/
def classItem (range : CharRange) : List Char :=
  escapedChar classMetaChars range.lo ++
    if range.hi = range.lo then [] else '-' :: escapedChar classMetaChars range.hi

/-- The sign of a quantifier. -/
def Quantifier.sign : Quantifier → Char
  | .star => '*'
  | .plus => '+'
  | .opt => '?'

/-- The sign of a repetition; a lazy one has a question mark behind it. -/
def repetitionSigns (quantifier : Quantifier) (greed : Greed) : List Char :=
  match greed with
  | .greedy => [Quantifier.sign quantifier]
  | .lazy => [Quantifier.sign quantifier, '?']

/-- A quantifier behind the text of such an expression applies to all of it. -/
def isAtom : Regex → Bool
  | .any | .lit _ | .set _ | .group _ | .atEnd => true
  | .rep .. | .alt _ | .cat _ => false

/-- Alternatives with at least one branch, whose bars would reach into the text around them. -/
def hasBars : Regex → Bool
  | .alt (_ :: _) => true
  | _ => false

/-- A group that captures nothing around a text, where it is needed. -/
def wrappedIf (needed : Bool) (text : List Char) : List Char :=
  if needed then ['(', '?', ':'] ++ text ++ [')'] else text

mutual

/-- The text of an expression. No branches at all are written as the class without characters. -/
def chars : Regex → List Char
  | .any => ['.']
  | .lit c => escapedChar metaChars c
  | .set ranges => '[' :: ranges.flatMap classItem ++ [']']
  | .group body => '(' :: body.chars ++ [')']
  | .rep quantifier greed body =>
      wrappedIf (!body.isAtom) body.chars ++ repetitionSigns quantifier greed
  | .alt [] => ['[', ']']
  | .alt (first :: rest) => wrappedIf first.hasBars first.chars ++ branchChars rest
  | .cat items => itemChars items
  | .atEnd => ['$']

/-- The text of further branches, each behind a bar. -/
def branchChars : List Regex → List Char
  | [] => []
  | branch :: rest => '|' :: wrappedIf branch.hasBars branch.chars ++ branchChars rest

/-- The text of expressions that follow each other. -/
def itemChars : List Regex → List Char
  | [] => []
  | item :: rest => wrappedIf item.hasBars item.chars ++ itemChars rest

end

/-- An expression in the form that the parser reads. -/
def text (regex : Regex) : String := String.ofList regex.chars

end TaggedRegex.Regex
