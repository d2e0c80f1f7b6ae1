import TaggedRegex.Regex.Printer
import TaggedRegex.Regex.Reading

set_option autoImplicit false

/-!
The grammar of patterns: which texts are patterns, and which expression each of them stands for.
Every rule says how a text is put together from smaller ones; none of them says how it is read.
-/

namespace TaggedRegex

namespace Regex

/-- The items that an expression contributes to a sequence: a sequence joins the one around it. -/
def pieces : Regex → List Regex
  | .cat items => items
  | .any => [.any]
  | .lit c => [.lit c]
  | .set ranges => [.set ranges]
  | .group body => [.group body]
  | .rep quantifier greed body => [.rep quantifier greed body]
  | .alt branches => [.alt branches]
  | .atEnd => [.atEnd]

/-- The expression that items in a row make up; a single item stands for itself. -/
def sequence : List Regex → Regex
  | [item] => item
  | items => .cat items

/-- The expression that branches make up; a single branch stands for itself. -/
def choice : List Regex → Regex
  | [branch] => branch
  | branches => .alt branches

end Regex

namespace Grammar

/-- The signs of the quantifiers. -/
def signs : List Char := ['*', '+', '?']

/-- The characters that are no literals outside classes unless a backslash stands before them. -/
def reserved : List Char := ['|', ')', '(', '[', '.', '$', '^', '\\', '*', '+', '?']

/-- A character behind a backslash, and the character that both together stand for. -/
inductive EscapedChar : Char → Char → Prop where
  | newline : EscapedChar 'n' '\n'
  | tab : EscapedChar 't' '\t'
  | carriageReturn : EscapedChar 'r' '\r'
  | self (c : Char) (other : Text.isAlphanumeric c = false) : EscapedChar c c

/-- A letter behind a backslash, and the ranges that both together stand for. -/
inductive Shorthand : Char → List CharRange → Prop where
  | digit : Shorthand 'd' Regex.digits
  | word : Shorthand 'w' Regex.wordChars
  | blank : Shorthand 's' Regex.blanks
  | notDigit : Shorthand 'D' (CharRange.complement Regex.digits)
  | notWord : Shorthand 'W' (CharRange.complement Regex.wordChars)
  | notBlank : Shorthand 'S' (CharRange.complement Regex.blanks)

/-- One character of a class. -/
inductive ClassChar : List Char → Char → Prop where
  | plain (c : Char) (noBracket : c ≠ ']') (noBackslash : c ≠ '\\') : ClassChar [c] c
  | escaped {c meant : Char} (escape : EscapedChar c meant) : ClassChar ['\\', c] meant

/-- What stands between the brackets of a class, a caret at the front apart. A dash with something
behind it makes a range of the character before it; the bounds of a range are in order. -/
inductive ClassItems : List Char → List CharRange → Prop where
  | nil : ClassItems [] []
  | shorthand {c : Char} {ranges more : List CharRange} {rest : List Char}
      (short : Shorthand c ranges) (items : ClassItems rest more) :
      ClassItems ('\\' :: c :: rest) (ranges ++ more)
  | single {lo : Char} {text rest : List Char} {more : List CharRange}
      (char : ClassChar text lo) (items : ClassItems rest more)
      (alone : ∀ (c : Char) (tail : List Char), rest ≠ '-' :: c :: tail) :
      ClassItems (text ++ rest) (.single lo :: more)
  | range {range : CharRange} {lower upper rest : List Char} {more : List CharRange}
      (lo : ClassChar lower range.lo) (hi : ClassChar upper range.hi)
      (items : ClassItems rest more) :
      ClassItems (lower ++ '-' :: (upper ++ rest)) (range :: more)

/-- A class with its brackets. A caret at the front takes the characters outside the ranges. -/
inductive Class : List Char → List CharRange → Prop where
  | positive {body : List Char} {ranges : List CharRange} (items : ClassItems body ranges)
      (noCaret : ∀ tail : List Char, body ≠ '^' :: tail) : Class ('[' :: (body ++ [']'])) ranges
  | negative {body : List Char} {ranges : List CharRange} (items : ClassItems body ranges) :
      Class ('[' :: '^' :: (body ++ [']'])) (CharRange.complement ranges)

mutual

/-- What a quantifier may follow. Inside it, `room` groups may be opened one inside the other. -/
inductive Atom : Nat → List Char → Regex → Prop where
  | any {room : Nat} : Atom room ['.'] .any
  | atEnd {room : Nat} : Atom room ['$'] .atEnd
  | lit {room : Nat} {c : Char} (plain : c ∉ reserved) : Atom room [c] (.lit c)
  | escapedChar {room : Nat} {c meant : Char} (escape : EscapedChar c meant) :
      Atom room ['\\', c] (.lit meant)
  | shorthand {room : Nat} {c : Char} {ranges : List CharRange} (short : Shorthand c ranges) :
      Atom room ['\\', c] (.set ranges)
  | set {room : Nat} {text : List Char} {ranges : List CharRange} (items : Class text ranges) :
      Atom room text (.set ranges)
  | group {room : Nat} {text : List Char} {branches : List Regex}
      (body : Branches room text branches) (capturing : ∀ tail : List Char, text ≠ '?' :: tail) :
      Atom (room + 1) ('(' :: (text ++ [')'])) (.group (.choice branches))
  | bracketed {room : Nat} {text : List Char} {branches : List Regex}
      (body : Branches room text branches) :
      Atom (room + 1) ('(' :: '?' :: ':' :: (text ++ [')'])) (.choice branches)

/-- An atom with or without a quantifier, and the items that it contributes to the sequence. Only a
group that captures nothing can contribute anything but one item. -/
inductive Item : Nat → List Char → List Regex → Prop where
  | once {room : Nat} {text : List Char} {regex : Regex} (atom : Atom room text regex) :
      Item room text regex.pieces
  | greedy {room : Nat} {text : List Char} {regex : Regex} (quantifier : Quantifier)
      (atom : Atom room text regex) :
      Item room (text ++ [Regex.Quantifier.sign quantifier]) [.rep quantifier .greedy regex]
  | lazy {room : Nat} {text : List Char} {regex : Regex} (quantifier : Quantifier)
      (atom : Atom room text regex) :
      Item room (text ++ [Regex.Quantifier.sign quantifier, '?']) [.rep quantifier .lazy regex]

/-- Items in a row. None of them is followed by the sign of a quantifier that is not its own. -/
inductive Items : Nat → List Char → List Regex → Prop where
  | nil {room : Nat} : Items room [] []
  | cons {room : Nat} {text rest : List Char} {items more : List Regex}
      (first : Item room text items) (others : Items room rest more)
      (apart : ∀ (c : Char) (tail : List Char), rest = c :: tail → c ∉ signs) :
      Items room (text ++ rest) (items ++ more)

/-- Sequences with bars between them. -/
inductive Branches : Nat → List Char → List Regex → Prop where
  | one {room : Nat} {text : List Char} {items : List Regex} (last : Items room text items) :
      Branches room text [.sequence items]
  | cons {room : Nat} {text rest : List Char} {items more : List Regex}
      (first : Items room text items) (others : Branches room rest more) :
      Branches room (text ++ '|' :: rest) (.sequence items :: more)

end

/-- A whole pattern and its expression. -/
inductive Pattern : List Char → Regex → Prop where
  | branches {text : List Char} {branches : List Regex}
      (derived : Branches maxDepth text branches) : Pattern text (.choice branches)

end Grammar

end TaggedRegex
