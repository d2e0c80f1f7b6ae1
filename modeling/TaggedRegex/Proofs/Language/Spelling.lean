import TaggedRegex.Regex.Basic

set_option autoImplicit false

/-!
The language of an expression. Whether the end of the input is reached depends on what lies behind a
word, so words are taken together with that.
-/

namespace TaggedRegex

/-- The expression matches the word when `behind` follows it in the input. -/
inductive Regex.Spells : Regex → List Char → List Char → Prop
  | any (c : Char) (behind : List Char) : Spells .any [c] behind
  | lit (c : Char) (behind : List Char) : Spells (.lit c) [c] behind
  | set {ranges : List CharRange} {range : CharRange} {c : Char} (behind : List Char) :
      range ∈ ranges → c ∈ range → Spells (.set ranges) [c] behind
  | group {body : Regex} {word behind : List Char} :
      Spells body word behind → Spells (.group body) word behind
  | starDone (greed : Greed) (body : Regex) (behind : List Char) :
      Spells (.rep .star greed body) [] behind
  | starMore {greed : Greed} {body : Regex} {word more behind : List Char} :
      Spells body word (more ++ behind) → Spells (.rep .star greed body) more behind →
      Spells (.rep .star greed body) (word ++ more) behind
  | plus {greed : Greed} {body : Regex} {word more behind : List Char} :
      Spells body word (more ++ behind) → Spells (.rep .star greed body) more behind →
      Spells (.rep .plus greed body) (word ++ more) behind
  | optNone (greed : Greed) (body : Regex) (behind : List Char) :
      Spells (.rep .opt greed body) [] behind
  | optSome {greed : Greed} {body : Regex} {word behind : List Char} :
      Spells body word behind → Spells (.rep .opt greed body) word behind
  | alt {branches : List Regex} {branch : Regex} {word behind : List Char} :
      branch ∈ branches → Spells branch word behind → Spells (.alt branches) word behind
  | catNil (behind : List Char) : Spells (.cat []) [] behind
  | catCons {item : Regex} {items : List Regex} {word more behind : List Char} :
      Spells item word (more ++ behind) → Spells (.cat items) more behind →
      Spells (.cat (item :: items)) (word ++ more) behind
  | atEnd : Spells .atEnd [] []

end TaggedRegex
