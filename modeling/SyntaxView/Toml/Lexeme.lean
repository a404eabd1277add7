import SyntaxView.Toml.Value
import SyntaxView.Text.Utf8
import SyntaxView.Text.Reader

/-!
# TOML lexemes

Readers of the small parts of a TOML text: blanks, comments, line ends, strings and keys.
-/

namespace SyntaxView.Toml

open Text (Reader hexValue?)

/-- The span from the front of a text to the front of its rest. -/
def Span.between (s rest : List Char) : Span := ⟨Text.Utf8.size s, Text.Utf8.size rest⟩

/-! ### Blanks, comments and line ends -/

def isBlank (c : Char) : Bool := c == ' ' || c == '\t'

def skipBlanks (s : List Char) : List Char := s.dropWhile isBlank

/-- Characters that may stand in a comment or a string: all but control characters, of which the
tab may. -/
def isPlain (c : Char) : Bool := c == '\t' || (0x20 ≤ c.toNat && c.toNat != 0x7F)

/-- The rest after a line end, if there is one: a line feed, with or without a carriage return
before it. -/
def newline? : List Char → Option (List Char)
  | '\n' :: s => some s
  | '\r' :: '\n' :: s => some s
  | _ => none

/-- The rest after a comment, if there is one; the end of its line stays. -/
def skipComment (s : List Char) : List Char :=
  match s with
  | '#' :: s => s.dropWhile isPlain
  | _ => s

/-- The rest after the end of a line that has nothing more than blanks and a comment.  The end of
the text ends a line too. -/
def endLine? (s : List Char) : Option (List Char) :=
  match skipComment (skipBlanks s) with
  | [] => some []
  | s => newline? s

/-- The rest after blanks, comments and line ends, as many as there are; `fuel` is at least the
length of the text. -/
def skipTrivia : (fuel : Nat) → List Char → List Char
  | 0, s => s
  | fuel + 1, s =>
    let s := skipComment (skipBlanks s)
    match newline? s with
    | none => s
    | some rest => skipTrivia fuel rest

/-! ### Strings -/

/-- The character whose code point is written in `count` hexadecimal digits; `value` holds those
before. -/
def readCodePoint : (count value : Nat) → Reader Char
  | 0, value, s =>
    if value < 0xD800 || (0xE000 ≤ value && value < 0x110000) then some (Char.ofNat value, s)
    else none
  | _ + 1, _, [] => none
  | count + 1, value, c :: s =>
    match hexValue? c with
    | none => none
    | some digit => readCodePoint count (value * 16 + digit) s

/-- The character of an escape, after its backslash. -/
def readEscape : Reader Char
  | [] => none
  | c :: s =>
    match c with
    | 'b' => some ('\x08', s)
    | 't' => some ('\t', s)
    | 'n' => some ('\n', s)
    | 'f' => some ('\x0c', s)
    | 'r' => some ('\r', s)
    | 'e' => some ('\x1b', s)
    | '"' => some ('"', s)
    | '\\' => some ('\\', s)
    | 'x' => readCodePoint 2 0 s
    | 'u' => readCodePoint 4 0 s
    | 'U' => readCodePoint 8 0 s
    | _ => none

/-- A string in double quotes, after the opening one; `fuel` is at least the length of the text. -/
def readBasic : (fuel : Nat) → Reader (List Char)
  | 0, _ => none
  | _, [] => none
  | fuel + 1, c :: s =>
    if c = '"' then some ([], s)
    else if c = '\\' then do
      let (e, s) ← readEscape s
      let (value, s) ← readBasic fuel s
      return (e :: value, s)
    else if isPlain c then do
      let (value, s) ← readBasic fuel s
      return (c :: value, s)
    else none

/-- A string in single quotes, after the opening one. -/
def readLiteral : Reader (List Char)
  | [] => none
  | c :: s =>
    if c = '\'' then some ([], s)
    else if isPlain c then (readLiteral s).map fun (value, s) => (c :: value, s)
    else none

/-- The rest after a line end, if the text starts with one. -/
def skipNewline (s : List Char) : List Char := (newline? s).getD s

/-- The rest after blanks and line ends, as many as there are.  A carriage return ends a line only
before a line feed. -/
def skipSpace : List Char → List Char
  | '\r' :: '\n' :: s => skipSpace s
  | c :: s => if isBlank c || c == '\n' then skipSpace s else c :: s
  | [] => []

/-- The rest after a backslash at the end of a line, if nothing but blanks follows it there: it
takes away all blanks and line ends up to the next character. -/
def lineContinuation? (s : List Char) : Option (List Char) :=
  (newline? (skipBlanks s)).map skipSpace

/-- A string between triples of the character `quote`, after the opening triple.  Of a run of
quotes the last three close the string, and up to two more before them belong to it.  Line ends
belong to the string as they are written.  Backslashes are escapes where `escapes` says so.  `fuel`
is at least the length of the text. -/
def readMultiline (quote : Char) (escapes : Bool) : (fuel : Nat) → Reader (List Char)
  | 0, _ => none
  | _, [] => none
  | fuel + 1, c :: s =>
    if c = quote then
      let run := 1 + (s.takeWhile (· == quote)).length
      if 3 ≤ run then
        let inside := min (run - 3) 2
        some (List.replicate inside quote, s.drop (inside + 2))
      else do
        let (value, s) ← readMultiline quote escapes fuel (s.drop (run - 1))
        return (List.replicate run quote ++ value, s)
    else if escapes && c == '\\' then
      match lineContinuation? s with
      | some s => readMultiline quote escapes fuel s
      | none => do
        let (e, s) ← readEscape s
        let (value, s) ← readMultiline quote escapes fuel s
        return (e :: value, s)
    else if isPlain c || (newline? (c :: s)).isSome then do
      let (value, s) ← readMultiline quote escapes fuel s
      return (c :: value, s)
    else none

/-- A string on one line, in either kind of quotes. -/
def readLine : Reader (List Char)
  | '"' :: s => readBasic s.length s
  | '\'' :: s => readLiteral s
  | _ => none

/-- A string of any kind. -/
def readString (s : List Char) : Option (List Char × List Char) :=
  match s with
  | '"' :: '"' :: '"' :: s => readMultiline '"' true s.length (skipNewline s)
  | '\'' :: '\'' :: '\'' :: s => readMultiline '\'' false s.length (skipNewline s)
  | s => readLine s

/-! ### Keys -/

/-- Characters of keys without quotes. -/
def isBareKeyChar (c : Char) : Bool :=
  ('a' ≤ c && c ≤ 'z') || ('A' ≤ c && c ≤ 'Z') || ('0' ≤ c && c ≤ '9') || c == '_' || c == '-'

/-- One key, bare or quoted. -/
def readSimpleKey (s : List Char) : Option (Key × List Char) :=
  let bare := s.takeWhile isBareKeyChar
  if bare.isEmpty then do
    let (name, rest) ← readLine s
    return (⟨.ofList name, .between s rest⟩, rest)
  else
    let rest := s.dropWhile isBareKeyChar
    some (⟨.ofList bare, .between s rest⟩, rest)

/-- Keys with dots between them; `fuel` is at least the length of the text. -/
def readKeys : (fuel : Nat) → Reader (List Key)
  | 0, _ => none
  | fuel + 1, s => do
    let (key, rest) ← readSimpleKey s
    match skipBlanks rest with
    | '.' :: more => do
      let (keys, rest) ← readKeys fuel (skipBlanks more)
      return (key :: keys, rest)
    | rest => return ([key], rest)

/-- The number of levels to which arrays, tables in braces and dotted keys may be nested. -/
def maxDepth : Nat := 80

/-- A dotted key: the keys before the last, and the last. -/
def readDottedKey (s : List Char) : Option ((List Key × Key) × List Char) := do
  let (keys, rest) ← readKeys (s.length + 1) s
  match keys.getLast? with
  | none => none
  | some last => if keys.length ≤ maxDepth then some ((keys.dropLast, last), rest) else none

end SyntaxView.Toml
