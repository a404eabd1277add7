import SyntaxView.Text.Unprintable
import SyntaxView.Text.GraphemeExtend

/-!
# Quoted texts

The quoted form of a text, in which every character can be seen: between double quotes, with a
backslash before a quote and a backslash, short escapes for line feed, tab, carriage return and
NUL, and the code point of every other character that is unprintable or would join the one before
it.
-/

namespace SyntaxView.Text.Quoted

/-- The digits of `n` to the base sixteen, in lower case and without leading zeros. -/
def hexDigits (n : Nat) : List Char := Nat.toDigits 16 n

/-- The Hangul fillers: letters that leave no mark. -/
def isFiller (c : Char) : Bool :=
  c == '\u115F' || c == '\u1160' || c == '\u3164' || c == '\uFFA0'

/-- The halfwidth sound marks of Katakana: they join the character before them but have a width of
their own, so they can be read wherever they stand. -/
def isSoundMark (c : Char) : Bool := c == '\uFF9E' || c == '\uFF9F'

/-- Characters that are written by their code point: those that could not be seen, or not be told
from the character before them. -/
def isByCodePoint (c : Char) : Bool :=
  (Text.isGraphemeExtend c && !isSoundMark c) || Text.isUnprintable c || isFiller c

/-- The written form of one character inside the quotes. -/
def escape (c : Char) : List Char :=
  if c = '"' then ['\\', '"']
  else if c = '\\' then ['\\', '\\']
  else if c = '\n' then ['\\', 'n']
  else if c = '\t' then ['\\', 't']
  else if c = '\r' then ['\\', 'r']
  else if c = '\x00' then ['\\', '0']
  else if isByCodePoint c then ['\\', 'u', '\x7b'] ++ hexDigits c.toNat ++ ['\x7d']
  else [c]

/-- The quoted form of a text. -/
def quote (s : List Char) : List Char := '"' :: s.flatMap escape ++ ['"']

end SyntaxView.Text.Quoted

namespace SyntaxView.Text

/-- The quoted form of a text. -/
def quoted (s : String) : String := String.ofList (Quoted.quote s.toList)

end SyntaxView.Text
