import SyntaxView.Datum.Basic
import SyntaxView.Text.Reader

/-!
# Numerals

The number that a numeral of a data text stands for.  Whole numbers of 64 bits, with a sign or
without, are integers, and all others are floats.

A float is not read to the last bit.  As many digits as a 64-bit word holds are taken for a whole
number, the rest only count for its size, and the number is then multiplied or divided by a power of
ten; each of these steps rounds.
-/

namespace SyntaxView

/-- A numeral in its parts: the digits before and after the point, and the exponent if it has
one. -/
structure Numeral where
  negative : Bool
  whole : List Char
  fraction : List Char
  exponent : Option Int
  deriving Repr, DecidableEq

namespace Numeral

/-- The largest 64-bit word. -/
def maxWord : Nat := 0xFFFFFFFFFFFFFFFF

/-- The word with digits added at its end, as many as it has room for, and the digits left over. -/
def fill : (word : Nat) → List Char → Nat × List Char
  | word, [] => (word, [])
  | word, c :: s =>
    let longer := word * 10 + Text.ofDigits 10 [c]
    if longer ≤ maxWord then fill longer s else (word, c :: s)

/-- The largest power of ten that is a float. -/
def maxPlaces : Nat := 308

/-- The quotient by a power of ten, in several steps if the power is no float. -/
def shrink (x : Binary64) (places : Nat) : Binary64 :=
  if places ≤ maxPlaces then x.overTenTo places
  else if x.isZero then x
  else shrink (x.overTenTo maxPlaces) (places - maxPlaces)
termination_by places
decreasing_by
  have : maxPlaces = 308 := rfl
  omega

/-- `word * 10 ^ exponent` as a float, if it is not too large for one. -/
def scale? (negative : Bool) (word : Nat) (exponent : Int) : Option Binary64 :=
  let x := Binary64.ofRatio negative word 1
  if exponent < 0 then some (shrink x (-exponent).toNat)
  else if exponent ≤ maxPlaces then
    match x.timesTenTo exponent.toNat with
    | .infinite _ => none
    | y => some y
  else if x.isZero then some x
  else none

/-- The number of a numeral, if it is not too large for one.  The minus of a zero is kept, which
only a float can do. -/
def toDatum? (n : Numeral) : Option Datum :=
  let (word, beyond) := fill 0 n.whole
  let isWhole := n.fraction.isEmpty && n.exponent.isNone
  if isWhole && beyond.isEmpty && !n.negative then some (.integer word)
  else if isWhole && beyond.isEmpty && 0 < word && word ≤ 0x8000000000000000 then
    some (.integer (-(word : Int)))
  else
    let (word, ignored) := fill word n.fraction
    let places : Int := n.fraction.length - ignored.length
    (scale? n.negative word (beyond.length - places + n.exponent.getD 0)).map .float

end Numeral

end SyntaxView
