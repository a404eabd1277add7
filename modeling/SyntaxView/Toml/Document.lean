import SyntaxView.Toml.Number

/-!
# Reading TOML

The values with brackets and braces, the lines of a document, and the document.  Values nest to a
fixed depth, so the reader of values counts down the levels; the readers of lists count down the
characters that are left.
-/

namespace SyntaxView.Toml

open Text (Reader)

/-- A value with its span. -/
abbrev Item := Span × Value

/-! ### Values -/

/-- What follows an item of a list: the closing mark, or a comma and perhaps the next item.  The
items are added to those `before`. -/
def readList {α : Type} (close : Char) (item : List α → Reader (List α)) :
    (fuel : Nat) → List α → Reader (List α)
  | 0, _, _ => none
  | fuel + 1, before, s =>
    let s := skipTrivia s.length s
    match s with
    | [] => none
    | c :: rest =>
      if c = close then some (before, rest)
      else do
        let (before, s) ← item before s
        match skipTrivia s.length s with
        | ',' :: s => readList close item fuel before s
        | c :: s => if c = close then some (before, s) else none
        | [] => none

/-- A value; `depth` is the number of levels that may still be opened.  Between brackets and between
braces comments and line ends may stand wherever blanks may, inside a dotted key apart. -/
def readItem : (depth : Nat) → Reader Item
  | depth, s =>
    match s with
    | '[' :: rest =>
      match depth with
      | 0 => none
      | depth + 1 => do
        let item (before : List Item) : Reader (List Item) := fun s => do
          let (v, s) ← readItem depth s
          return (before ++ [v], s)
        let (items, s') ← readList ']' item (rest.length + 1) [] rest
        return ((.between s s', .array items), s')
    | '\x7b' :: rest =>
      match depth with
      | 0 => none
      | depth + 1 => do
        let item (before : Entries) : Reader Entries := fun s => do
          let ((path, key), s) ← readDottedKey s
          match skipTrivia s.length s with
          | '=' :: s => do
            let (v, s) ← readItem depth (skipTrivia s.length s)
            let entries ← before.assign path key v
            return (entries, s)
          | _ => none
        let (entries, s') ← readList '\x7d' item (rest.length + 1) [] rest
        return ((.between s s', .table .inline entries), s')
    | c :: _ =>
      if c = '"' || c = '\'' then do
        let (value, s') ← readString s
        return ((.between s s', .text (.ofList value)), s')
      else do
        let (value, s') ← readBare s
        return ((.between s s', value), s')
    | [] => none

/-! ### Lines -/

/-- A document while it is read: what it holds so far, and the keys of the header that is open. -/
structure Draft where
  entries : Entries
  header : List Key
  deriving Repr

/-- The line of a key and its value. -/
def readAssignment (draft : Draft) (s : List Char) : Option (Draft × List Char) := do
  let ((path, key), s) ← readDottedKey s
  match s with
  | '=' :: s => do
    let (item, s) ← readItem maxDepth (skipBlanks s)
    let entries ← draft.entries.changeAt draft.header (Entries.assign path key item)
    return ({ draft with entries := entries }, s)
  | _ => none

/-- The header of a table, in single or double brackets. -/
def readHeader (draft : Draft) (s : List Char) : Option (Draft × List Char) :=
  match s with
  | '[' :: '[' :: rest => do
    let ((path, key), rest) ← readDottedKey (skipBlanks rest)
    match rest with
    | ']' :: ']' :: rest => do
      let entries ← draft.entries.changeAt path (Entries.openElement key (.between s rest))
      return (⟨entries, path ++ [key]⟩, rest)
    | _ => none
  | '[' :: rest => do
    let ((path, key), rest) ← readDottedKey (skipBlanks rest)
    match rest with
    | ']' :: rest => do
      let entries ← draft.entries.changeAt path (Entries.openTable key (.between s rest))
      return (⟨entries, path ++ [key]⟩, rest)
    | _ => none
  | _ => none

/-- The lines of a document; `fuel` is more than the length of the text. -/
def readLines : (fuel : Nat) → Draft → List Char → Option Entries
  | 0, _, _ => none
  | fuel + 1, draft, s =>
    let s := skipTrivia s.length s
    match s with
    | [] => some draft.entries
    | c :: _ => do
      let (draft, s) ← if c = '[' then readHeader draft s else readAssignment draft s
      let s ← endLine? s
      readLines fuel draft s

/-- The text without the byte order mark that may stand at its front. -/
def skipMark : List Char → List Char
  | '\uFEFF' :: s => s
  | s => s

/-- The document a text stands for, if it is TOML. -/
def read? (text : List Char) : Option Entries :=
  let s := skipMark text
  readLines (s.length + 1) ⟨[], []⟩ s

end SyntaxView.Toml
