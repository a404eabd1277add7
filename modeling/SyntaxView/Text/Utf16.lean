import SyntaxView.Text.Utf8

/-!
# UTF-16

Code units of a text and lossy decoding of code units, which puts one replacement character in the
place of each surrogate that has no partner.
-/

namespace SyntaxView.Text.Utf16

/-- The code units of one character: one, or a surrogate pair above `U+FFFF`. -/
def encodeChar (c : Char) : List UInt16 :=
  let n := c.toNat
  if n < 0x10000 then [UInt16.ofNat n]
  else
    [UInt16.ofNat (0xD800 + (n - 0x10000) / 0x400),
     UInt16.ofNat (0xDC00 + (n - 0x10000) % 0x400)]

/-- The code units of a text. -/
def encode (s : List Char) : List UInt16 := s.flatMap encodeChar

/-- The first unit of a surrogate pair. -/
def isHigh (u : UInt16) : Bool := 0xD800 ≤ u.toNat && u.toNat < 0xDC00

/-- The second unit of a surrogate pair. -/
def isLow (u : UInt16) : Bool := 0xDC00 ≤ u.toNat && u.toNat < 0xE000

/-- The character of a surrogate pair. -/
def join (high low : UInt16) : Char :=
  Char.ofNat (0x10000 + (high.toNat - 0xD800) * 0x400 + (low.toNat - 0xDC00))

/-- The characters of the units, each surrogate without a partner replaced by one `U+FFFD`. -/
def decodeLossy : List UInt16 → List Char
  | [] => []
  | [u] => if isHigh u || isLow u then [Utf8.replacement] else [Char.ofNat u.toNat]
  | u :: v :: rest =>
    if isHigh u then
      if isLow v then join u v :: decodeLossy rest
      else Utf8.replacement :: decodeLossy (v :: rest)
    else if isLow u then Utf8.replacement :: decodeLossy (v :: rest)
    else Char.ofNat u.toNat :: decodeLossy (v :: rest)

end SyntaxView.Text.Utf16
