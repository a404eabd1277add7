import SyntaxView.Datum.Numeral
import SyntaxView.Text.Reader

/-!
# Data texts

The value that a JSON text stands for.  Values nest to a fixed depth, so the reader of values counts
down the levels; the readers of lists and of strings count down the characters that are left.
-/

namespace SyntaxView.Datum

open Text (Reader isDigit hexValue? ofDigits)

def isSpace (c : Char) : Bool := c == ' ' || c == '\t' || c == '\n' || c == '\r'

def skipSpace (s : List Char) : List Char := s.dropWhile isSpace

/-! ### Numbers -/

/-- The digits at the front of a text, of which there has to be one. -/
def readDigits : Reader (List Char) := fun s =>
  let digits := s.takeWhile isDigit
  if digits.isEmpty then none else some (digits, s.dropWhile isDigit)

/-- The digits before the point.  A zero at the front stands alone. -/
def readWhole : Reader (List Char)
  | '0' :: s => some (['0'], s)
  | s => readDigits s

/-- The digits after the point, none if there is no point. -/
def readFraction : Reader (List Char)
  | '.' :: s => readDigits s
  | s => some ([], s)

/-- The sign at the front of an exponent, true for minus, and the rest. -/
def splitSign : List Char → Bool × List Char
  | '-' :: s => (true, s)
  | '+' :: s => (false, s)
  | s => (false, s)

/-- The exponent, if there is one. -/
def readExponent (s : List Char) : Option (Option Int × List Char) :=
  match s with
  | [] => some (none, [])
  | c :: rest =>
    if c = 'e' || c = 'E' then do
      let (negative, rest) := splitSign rest
      let (digits, rest) ← readDigits rest
      let n := ofDigits 10 digits
      return (some (if negative then -(n : Int) else n), rest)
    else some (none, s)

/-- A number. -/
def readNumber (s : List Char) : Option (Datum × List Char) := do
  let (negative, s) := match s with
    | '-' :: s => (true, s)
    | s => (false, s)
  let (whole, s) ← readWhole s
  let (fraction, s) ← readFraction s
  let (exponent, s) ← readExponent s
  let d ← Numeral.toDatum? ⟨negative, whole, fraction, exponent⟩
  return (d, s)

/-! ### Strings -/

/-- A unit of sixteen bits in four digits. -/
def readUnit : Reader Nat
  | a :: b :: c :: d :: s =>
    let digits := [a, b, c, d]
    if digits.all fun c => (hexValue? c).isSome then some (ofDigits 16 digits, s) else none
  | _ => none

def isLeading (unit : Nat) : Bool := 0xD800 ≤ unit && unit ≤ 0xDBFF

def isTrailing (unit : Nat) : Bool := 0xDC00 ≤ unit && unit ≤ 0xDFFF

/-- A character after `\u`: one unit, or two that belong together. -/
def readCodePoint (s : List Char) : Option (Char × List Char) := do
  let (unit, s) ← readUnit s
  if isLeading unit then
    match s with
    | '\\' :: 'u' :: s => do
      let (second, s) ← readUnit s
      if isTrailing second then
        return (.ofNat (0x10000 + (unit - 0xD800) * 0x400 + (second - 0xDC00)), s)
      else none
    | _ => none
  else if isTrailing unit then none
  else return (.ofNat unit, s)

/-- A character after a backslash. -/
def readEscape : Reader Char
  | 'u' :: s => readCodePoint s
  | c :: s =>
    if c = '"' || c = '\\' || c = '/' then some (c, s)
    else if c = 'b' then some ('\x08', s)
    else if c = 'f' then some ('\x0c', s)
    else if c = 'n' then some ('\n', s)
    else if c = 'r' then some ('\r', s)
    else if c = 't' then some ('\t', s)
    else none
  | [] => none

/-- A string after its opening quote; `fuel` is at least the length of the text. -/
def readText : (fuel : Nat) → Reader (List Char)
  | 0, _ => none
  | _, [] => none
  | fuel + 1, c :: s =>
    if c = '"' then some ([], s)
    else if c = '\\' then do
      let (e, s) ← readEscape s
      let (value, s) ← readText fuel s
      return (e :: value, s)
    else if c.toNat < 0x20 then none
    else do
      let (value, s) ← readText fuel s
      return (c :: value, s)

/-! ### Values -/

/-- The items of a list after its opening mark, up to the mark `close`; they are added to those
`before`. -/
def readItems {α : Type} (close : Char) (item : List α → Reader (List α)) :
    (fuel : Nat) → List α → Reader (List α)
  | 0, _, _ => none
  | fuel + 1, before, s => do
    let (before, s) ← item before (skipSpace s)
    match skipSpace s with
    | ',' :: s => readItems close item fuel before s
    | c :: s => if c = close then some (before, s) else none
    | [] => none

/-- The items of a list after its opening mark, of which there may be none. -/
def readList {α : Type} (close : Char) (item : List α → Reader (List α)) (s : List Char) :
    Option (List α × List Char) :=
  match skipSpace s with
  | [] => none
  | c :: rest => if c = close then some ([], rest) else readItems close item s.length [] s

/-- The entries with a value for a key, in the place of one that may be there. -/
def insert (entries : List (String × Datum)) (key : String) (value : Datum) :
    List (String × Datum) :=
  if entries.any (·.1 == key) then
    entries.map fun e => if e.1 == key then (key, value) else e
  else entries ++ [(key, value)]

/-- The rest after a word, if the text starts with it. -/
def afterWord? (word : String) (s : List Char) : Option (List Char) :=
  if word.toList.isPrefixOf s then some (s.drop word.length) else none

/-- A value; `depth` is the number of levels that may still be opened. -/
def readValue : (depth : Nat) → Reader Datum
  | depth, s =>
    match s with
    | '[' :: rest =>
      match depth with
      | 0 => none
      | depth + 1 => do
        let item (before : List Datum) : Reader (List Datum) := fun s => do
          let (d, s) ← readValue depth s
          return (before ++ [d], s)
        let (items, s) ← readList ']' item rest
        return (.list items, s)
    | '\x7b' :: rest =>
      match depth with
      | 0 => none
      | depth + 1 => do
        let item (before : List (String × Datum)) : Reader (List (String × Datum)) := fun s =>
          match s with
          | '"' :: s => do
            let (key, s) ← readText s.length s
            match skipSpace s with
            | ':' :: s => do
              let (d, s) ← readValue depth (skipSpace s)
              return (insert before (.ofList key) d, s)
            | _ => none
          | _ => none
        let (entries, s) ← readList '\x7d' item rest
        return (.map entries, s)
    | '"' :: rest => do
      let (value, s) ← readText rest.length rest
      return (.text (.ofList value), s)
    | s =>
      match afterWord? "null" s, afterWord? "true" s, afterWord? "false" s with
      | some s, _, _ => some (.null, s)
      | _, some s, _ => some (.boolean true, s)
      | _, _, some s => some (.boolean false, s)
      | _, _, _ => readNumber s

/-- The number of levels to which lists and maps may be nested. -/
def maxDepth : Nat := 127

/-- The value a text stands for, if it is JSON. -/
def ofText? (text : List Char) : Option Datum :=
  match readValue maxDepth (skipSpace text) with
  | some (d, rest) => if (skipSpace rest).isEmpty then some d else none
  | none => none

/-- The value of a key, if this is a map that has it. -/
def get? (d : Datum) (key : String) : Option Datum :=
  match d with
  | map entries => entries.lookup key
  | _ => none

end SyntaxView.Datum
