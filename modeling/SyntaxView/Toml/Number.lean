import SyntaxView.Toml.Lexeme

/-!
# TOML numbers and dates

The values that are written without quotes or brackets.  Each is a run of characters up to the next
one that cannot be part of such a value, and is then taken as a whole: it is a truth value, an
integer, a float or a date, or it is no value at all.
-/

namespace SyntaxView.Toml

open Text (Reader isDigit hexValue? ofDigits)

/-! ### Digits -/

/-- The digits of a run in which single underscores may stand between digits. -/
def digits? (isDigit : Char → Bool) : List Char → Option (List Char)
  | [] => none
  | [c] => if isDigit c then some [c] else none
  | c :: '_' :: s => if isDigit c then (digits? isDigit s).map (c :: ·) else none
  | c :: s => if isDigit c then (digits? isDigit s).map (c :: ·) else none

/-- Decimal digits without a zero at the front, zero itself apart. -/
def wholeDigits? (s : List Char) : Option (List Char) := do
  let digits ← digits? isDigit s
  match digits with
  | '0' :: _ :: _ => none
  | _ => some digits

/-- The sign at the front, true for minus, and the rest. -/
def splitSign : List Char → Bool × List Char
  | '-' :: s => (true, s)
  | '+' :: s => (false, s)
  | s => (false, s)

/-! ### Integers -/

/-- The integers of 64 bits with a sign. -/
def inWord (n : Int) : Bool := -0x8000000000000000 ≤ n && n ≤ 0x7FFFFFFFFFFFFFFF

/-- An integer, decimal with or without a sign, or with a prefix that tells its base. -/
def integer? (s : List Char) : Option Int := do
  let n : Int ← match s with
    | '0' :: 'x' :: s => (digits? (fun c => (hexValue? c).isSome) s).map fun d => ofDigits 16 d
    | '0' :: 'o' :: s => (digits? (fun c => '0' ≤ c && c ≤ '7') s).map fun d => ofDigits 8 d
    | '0' :: 'b' :: s => (digits? (fun c => c == '0' || c == '1') s).map fun d => ofDigits 2 d
    | s =>
      let (negative, s) := splitSign s
      (wholeDigits? s).map fun d => if negative then -(ofDigits 10 d : Int) else ofDigits 10 d
  if inWord n then some n else none

/-! ### Floats -/

/-- The exponent of a float after its letter. -/
def exponent? (s : List Char) : Option Int :=
  let (negative, s) := splitSign s
  (digits? isDigit s).map fun d => if negative then -(ofDigits 10 d : Int) else ofDigits 10 d

/-- A float: infinity, not a number, or a decimal with a fraction or an exponent or both.  One too
large for the format is none. -/
def float? (s : List Char) : Option Binary64 :=
  let (negative, s) := splitSign s
  if s = "inf".toList then some (.infinite negative)
  else if s = "nan".toList then some .nan
  else do
    let isWhole (c : Char) : Bool := isDigit c || c == '_'
    let isMark (c : Char) : Bool := c == 'e' || c == 'E'
    let whole ← wholeDigits? (s.takeWhile isWhole)
    let (fraction, rest) ← match s.dropWhile isWhole with
      | '.' :: s => (digits? isDigit (s.takeWhile isWhole)).map fun d => (d, s.dropWhile isWhole)
      | c :: s => if isMark c then some ([], c :: s) else none
      | [] => none
    let exponent ← match rest with
      | [] => some 0
      | c :: s => if isMark c then exponent? s else none
    let digits := ofDigits 10 (whole ++ fraction)
    match Binary64.nearest negative ⟨digits, exponent - fraction.length⟩ with
    | .infinite _ => none
    | x => some x

/-! ### Dates and times -/

/-- A number of exactly `count` digits, from `low` to `high`. -/
def readField (count low high : Nat) : Reader Nat := fun s =>
  let digits := s.take count
  let n := ofDigits 10 digits
  if digits.length = count && digits.all isDigit && low ≤ n && n ≤ high then some (n, s.drop count)
  else none

def readMark (isMark : Char → Bool) : Reader Unit
  | c :: s => if isMark c then some ((), s) else none
  | [] => none

/-- The number of days of a month. -/
def daysIn (year month : Nat) : Nat :=
  if month = 2 then
    if year % 4 = 0 ∧ (year % 100 ≠ 0 ∨ year % 400 = 0) then 29 else 28
  else if month = 4 ∨ month = 6 ∨ month = 9 ∨ month = 11 then 30 else 31

/-- The rest after a date. -/
def date? (s : List Char) : Option (List Char) := do
  let (year, s) ← readField 4 0 9999 s
  let (_, s) ← readMark (· == '-') s
  let (month, s) ← readField 2 1 12 s
  let (_, s) ← readMark (· == '-') s
  let (_, s) ← readField 2 1 (daysIn year month) s
  return s

/-- The rest after the seconds of a time, which may have a fraction and may be left out. -/
def seconds? : List Char → Option (List Char)
  | ':' :: s => do
    let (_, s) ← readField 2 0 60 s
    match s with
    | '.' :: s =>
      match s.takeWhile isDigit with
      | [] => none
      | _ :: _ => some (s.dropWhile isDigit)
    | s => some s
  | s => some s

/-- The rest after a time of the day. -/
def time? (s : List Char) : Option (List Char) := do
  let (_, s) ← readField 2 0 23 s
  let (_, s) ← readMark (· == ':') s
  let (_, s) ← readField 2 0 59 s
  seconds? s

/-- The rest after the offset from universal time, which may be left out. -/
def zone? : List Char → Option (List Char)
  | [] => some []
  | c :: s =>
    if c == 'Z' || c == 'z' then some s
    else if c == '+' || c == '-' then do
      let (_, s) ← readField 2 0 23 s
      let (_, s) ← readMark (· == ':') s
      let (_, s) ← readField 2 0 59 s
      return s
    else none

/-- Whether a run is a date, a time, or both with or without an offset. -/
def isDateTime (s : List Char) : Bool :=
  time? s == some [] ||
    match date? s with
    | none => false
    | some [] => true
    | some (c :: s) =>
      (c == 'T' || c == 't' || c == ' ') && ((time? s).bind zone?) == some []

/-! ### The run -/

/-- Characters of values without quotes. -/
def isRunChar (c : Char) : Bool :=
  isBareKeyChar c || c == '+' || c == '.' || c == ':'

/-- The run of characters at the front of a text.  After a date a single blank may stand before the
time. -/
def splitRun (s : List Char) : List Char × List Char :=
  let run := s.takeWhile isRunChar
  let rest := s.dropWhile isRunChar
  match date? run, rest with
  | some [], ' ' :: c :: more =>
    if isDigit c then
      (run ++ ' ' :: (c :: more).takeWhile isRunChar, (c :: more).dropWhile isRunChar)
    else (run, rest)
  | _, _ => (run, rest)

/-- A value without quotes or brackets. -/
def readBare (s : List Char) : Option (Value × List Char) :=
  let (run, rest) := splitRun s
  if run = "true".toList then some (.boolean true, rest)
  else if run = "false".toList then some (.boolean false, rest)
  else
    match integer? run with
    | some n => some (.integer n, rest)
    | none =>
      match float? run with
      | some x => some (.float x, rest)
      | none => if isDateTime run then some (.dateTime, rest) else none

end SyntaxView.Toml
