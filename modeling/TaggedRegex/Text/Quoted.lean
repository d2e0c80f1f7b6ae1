import TaggedRegex.Text.Alphanumeric
import TaggedRegex.Text.Combining
import TaggedRegex.Text.Printable

set_option autoImplicit false

/-!
Text forms of characters and strings in which nothing is invisible: quoted characters and strings
for messages, and the escaped form of a range bound.
-/

namespace TaggedRegex.Text

/-- A number in lowercase hexadecimal, without leading zeros. -/
def hex (n : Nat) : String := String.ofList (Nat.toDigits 16 n)

/-- The escape that names a character by its code point, such as `\u{e000}`. -/
def codePointEscape (c : Char) : String := "\\u\x7b" ++ hex c.toNat ++ "\x7d"

/-- One character inside quotes. A combining character is escaped, since it would change the look
of the quote before it. -/
def quotedChar (quote c : Char) : String :=
  if c = '\x00' then "\\0"
  else if c = '\t' then "\\t"
  else if c = '\r' then "\\r"
  else if c = '\n' then "\\n"
  else if c = '\\' ∨ c = quote then String.ofList ['\\', c]
  else if isCombining c then codePointEscape c
  else if isPrintable c then String.singleton c
  else codePointEscape c

/-- A character in single quotes. -/
def quoteChar (c : Char) : String := "'" ++ quotedChar '\'' c ++ "'"

/-- A string in double quotes. -/
def quoteString (s : String) : String :=
  "\"" ++ String.join (s.toList.map (quotedChar '"')) ++ "\""

/-- A character as a bound of a range. Letters and digits of every alphabet and the rest of visible
ASCII, the blank included, stand for themselves. -/
def bound (c : Char) : String :=
  if isAlphanumeric c || (32 ≤ c.toNat && c.toNat < 127) then String.singleton c
  else if c = '\t' then "\\t"
  else if c = '\r' then "\\r"
  else if c = '\n' then "\\n"
  else codePointEscape c

end TaggedRegex.Text
