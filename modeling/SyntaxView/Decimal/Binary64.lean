/-!
# Binary floating-point numbers and their decimals

The finite numbers of the 64-bit binary format, as a natural number below `2 ^ 53` times a power of
two, and the two conversions between them and decimals: the nearest number to a decimal, and the
shortest decimal that has a number as its nearest.  Both are done in exact arithmetic on natural
numbers, and so are products and quotients.

What is left open by "shortest" is for a `DecimalStyle` to say: which of two equally near decimals
is taken, and where the digits in full give way to an exponent.
-/

namespace SyntaxView

/-- A number of the 64-bit binary format, or one of its special values.  The finite number is
`mantissa * 2 ^ exponent`, with a sign that zero has too. -/
inductive Binary64 where
  | finite (negative : Bool) (mantissa : Nat) (exponent : Int)
  | infinite (negative : Bool)
  | nan
  deriving Repr, DecidableEq

/-- A decimal: `digits * 10 ^ exponent`. -/
structure Decimal where
  digits : Nat
  exponent : Int
  deriving Repr, DecidableEq

/-- Which of two decimals that are equally near to a number is taken for it. -/
inductive Tie where
  | larger
  /-- The one with an even last digit. -/
  | even
  deriving Repr, DecidableEq

/-- How numbers are written. -/
structure DecimalStyle where
  tie : Tie
  /-- Whether a number is written in full, by the power of ten of its first digit.  Otherwise it
  is written with that power as an exponent. -/
  inFull : Int → Bool

namespace Binary64

/-- The least mantissa of a number that uses all its bits, `2 ^ 52`.  Every mantissa is below twice
this, and only the smallest numbers have one below it. -/
def leastMantissa : Nat := 0x10000000000000

/-- The least exponent of the format. -/
def minExponent : Int := -1074

/-- The greatest exponent of the format. -/
def maxExponent : Int := 971

/-- Zero, of either sign. -/
def isZero : Binary64 → Bool
  | .finite _ 0 _ => true
  | _ => false

/-! ### The nearest number to a decimal -/

/-- `num / den` to the nearest natural number, a half to the even neighbour. -/
def roundDiv (num den : Nat) : Nat :=
  let q := num / den
  let twice := 2 * (num % den)
  if twice < den then q else if den < twice then q + 1 else q + q % 2

/-- `num / den` divided by `2 ^ e`, as a numerator and a denominator. -/
def scaleDown (num den : Nat) (e : Int) : Nat × Nat :=
  if 0 ≤ e then (num, den * Nat.pow 2 e.toNat) else (num * Nat.pow 2 (-e).toNat, den)

/-- The finite number nearest to `num / den`, with the range of exponents open above.  The first
guess at the exponent leaves one or two bits too many or none. -/
def nearestFraction (num den : Nat) : Nat × Int :=
  let guess : Int := Nat.log2 num - Nat.log2 den - 53
  let wide := scaleDown num den guess
  let exponent := if 2 * leastMantissa ≤ wide.1 / wide.2 then guess + 1 else guess
  let exponent := max exponent minExponent
  let scaled := scaleDown num den exponent
  let mantissa := roundDiv scaled.1 scaled.2
  if mantissa = 2 * leastMantissa then (leastMantissa, exponent + 1) else (mantissa, exponent)

/-- The number nearest to `num / den`.  Beyond the largest number there is infinity. -/
def ofRatio (negative : Bool) (num den : Nat) : Binary64 :=
  if num = 0 then .finite negative 0 minExponent
  else
    let (mantissa, exponent) := nearestFraction num den
    if maxExponent < exponent then .infinite negative else .finite negative mantissa exponent

/-- `base ^ e` as a numerator and a denominator. -/
def power (base : Nat) (e : Int) : Nat × Nat :=
  if 0 ≤ e then (Nat.pow base e.toNat, 1) else (1, Nat.pow base (-e).toNat)

/-- The number nearest to a decimal.  Decimals far out of range are not worked out. -/
def nearest (negative : Bool) (d : Decimal) : Binary64 :=
  let size : Int := (Nat.toDigits 10 d.digits).length + d.exponent
  if d.digits = 0 ∨ size < -400 then .finite negative 0 minExponent
  else if 400 < size then .infinite negative
  else
    let scale := power 10 d.exponent
    ofRatio negative (d.digits * scale.1) scale.2

/-! ### Products and quotients -/

/-- The size of a finite number as a numerator and a denominator. -/
def ratio (mantissa : Nat) (exponent : Int) : Nat × Nat :=
  let scale := power 2 exponent
  (mantissa * scale.1, scale.2)

/-- The product with a power of ten, which is first rounded itself. -/
def timesTenTo (x : Binary64) (places : Nat) : Binary64 :=
  match x, nearest false ⟨1, places⟩ with
  | .finite negative m e, .finite _ m' e' =>
    let a := ratio m e
    let b := ratio m' e'
    ofRatio negative (a.1 * b.1) (a.2 * b.2)
  | .finite negative .., _ => .infinite negative
  | x, _ => x

/-- The quotient by a power of ten, which is first rounded itself. -/
def overTenTo (x : Binary64) (places : Nat) : Binary64 :=
  match x, nearest false ⟨1, places⟩ with
  | .finite negative m e, .finite _ m' e' =>
    let a := ratio m e
    let b := ratio m' e'
    ofRatio negative (a.1 * b.2) (a.2 * b.1)
  | .finite negative .., _ => .finite negative 0 minExponent
  | x, _ => x

/-! ### The shortest decimal of a number -/

/-- The number of digits before the point of `num / den`; below one it counts the zeros after the
point, negatively. -/
def pointPosition (num den : Nat) : Int :=
  if den ≤ num then (Nat.toDigits 10 (num / den)).length
  else
    match (List.range 400).find? fun k => den ≤ num * Nat.pow 10 (k + 1) with
    | some k => -(k : Int)
    | none => 0

/-- The decimal of `count` digits that is nearest to `mantissa * 2 ^ exponent`, if this number is
nearest to the decimal in turn.  All lengths are in quarters of the last bit: the number is
`4 * mantissa` of them, the reals that round to it lie between half a bit below (a quarter where
the bits below are finer) and half a bit above, and the two ends belong to them where the mantissa
is even. -/
def decimalOf? (tie : Tie) (mantissa : Nat) (exponent : Int) (point : Int) (count : Nat) :
    Option Decimal :=
  let quarter := power 2 (exponent - 2)
  let grid := power 10 (point - count)
  let gridUnit := grid.1 * quarter.2
  let bitUnit := quarter.1 * grid.2
  let value := 4 * mantissa * bitUnit
  let finer := mantissa = leastMantissa ∧ minExponent < exponent
  let low := (4 * mantissa - if finer then 1 else 2) * bitUnit
  let high := (4 * mantissa + 2) * bitUnit
  let good (digits : Nat) : Bool :=
    let x := digits * gridUnit
    if mantissa % 2 = 0 then low ≤ x && x ≤ high else low < x && x < high
  let down := value / gridUnit
  let up := down + 1
  let below := value - down * gridUnit
  let above := up * gridUnit - value
  let downFirst := below < above ∨ below = above ∧ tie = .even ∧ down % 2 = 0
  let candidates := if downFirst then [down, up] else [up, down]
  (candidates.find? good).map fun digits => ⟨digits, point - count⟩

/-- The decimal with the fewest digits that has `mantissa * 2 ^ exponent` as its nearest number.
Seventeen digits are always enough. -/
def shortest (tie : Tie) (mantissa : Nat) (exponent : Int) : Decimal :=
  let size := ratio mantissa exponent
  let point := pointPosition size.1 size.2
  ((List.range 17).findSome? fun k => decimalOf? tie mantissa exponent point (k + 1)).getD ⟨0, 0⟩

end Binary64

namespace Decimal

/-- The decimal in full, without an exponent.  A whole number keeps one zero after its point. -/
def render (d : Decimal) : String :=
  let digits := Nat.toDigits 10 d.digits
  let zeros (n : Nat) : List Char := List.replicate n '0'
  if 0 ≤ d.exponent then
    let whole := if d.digits = 0 then ['0'] else digits ++ zeros d.exponent.toNat
    .ofList (whole ++ ['.', '0'])
  else
    let places := (-d.exponent).toNat
    let padded := zeros (places + 1 - digits.length) ++ digits
    let whole := padded.take (padded.length - places)
    let part := (padded.drop (padded.length - places)).reverse.dropWhile (· = '0') |>.reverse
    .ofList (whole ++ '.' :: if part.isEmpty then ['0'] else part)

/-- The power of ten of the first digit. -/
def leadingPower (d : Decimal) : Int := (Nat.toDigits 10 d.digits).length + d.exponent - 1

/-- The decimal with one digit before its point and an exponent, which always has a sign. -/
def renderWithExponent (d : Decimal) : String :=
  let digits := ((Nat.toDigits 10 d.digits).reverse.dropWhile (· = '0')).reverse
  let part := digits.drop 1
  let power := d.leadingPower
  .ofList (digits.take 1 ++ (if part.isEmpty then [] else '.' :: part)) ++
    (if power < 0 then "e-" else "e+") ++ toString power.natAbs

/-- The decimal as a style has it. -/
def renderAs (d : Decimal) (style : DecimalStyle) : String :=
  if style.inFull d.leadingPower then d.render else d.renderWithExponent

end Decimal

namespace Binary64

/-- The number by its shortest decimal. -/
def render (style : DecimalStyle) : Binary64 → String
  | .nan => "NaN"
  | .infinite negative => if negative then "-inf" else "inf"
  | .finite negative mantissa exponent =>
    let size :=
      if mantissa = 0 then "0.0" else (shortest style.tie mantissa exponent).renderAs style
    if negative then "-" ++ size else size

end Binary64

end SyntaxView
