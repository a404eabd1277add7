import SyntaxView.Decimal.Binary64
import SyntaxView.Text.Quoted

/-!
# TOML documents

A document is a table: keys with values in the order in which the keys first stand in the text.
Every key and value carries its span, so that a problem found in a document can be shown in its
text.

Tables remember how they came about, because TOML lets some of them be extended later and others
not.  `Toml.Entries.assign`, `openTable` and `openElement` are the three ways in which a line of a
text adds to a document.
-/

namespace SyntaxView.Toml

/-- A stretch of a text, kept by the number of bytes that are left of the text at its two ends: a
reader knows how much is left, wherever it started. -/
structure Span where
  leftAtStart : Nat
  leftAtEnd : Nat
  deriving Repr, DecidableEq, Inhabited

/-- A key as it is meant, and where it is written. -/
structure Key where
  name : String
  span : Span
  deriving Repr, DecidableEq, Inhabited

/-- How a table came about. -/
inductive TableOrigin where
  /-- It is the root, or was opened by a header of its own. -/
  | header
  /-- A longer header leads through it. -/
  | implied
  /-- A dotted key leads through it. -/
  | dotted
  /-- It is written in braces. -/
  | inline
  deriving Repr, DecidableEq

/-- A value, the values in it with their spans. -/
inductive Value where
  | text (value : String)
  | integer (value : Int)
  | float (value : Binary64)
  | boolean (value : Bool)
  | dateTime
  | array (items : List (Span × Value))
  | table (origin : TableOrigin) (entries : List (Key × Span × Value))
  /-- Tables opened by headers in double brackets. -/
  | tables (elements : List (Span × List (Key × Span × Value)))
  deriving Repr, Inhabited

/-- The keys and values of a table, in order. -/
abbrev Entries := List (Key × Span × Value)

/-- Floats are shown in full whatever their size, and of two equally near decimals by the larger. -/
def floatStyle : DecimalStyle := ⟨.larger, fun _ => true⟩

namespace Value

/-- The value as it is called in a complaint. -/
def describe : Value → String
  | text value => "string " ++ Text.quoted value
  | integer value => s!"integer `{value}`"
  | float value => s!"floating point `{value.render floatStyle}`"
  | boolean value => s!"boolean `{value}`"
  | array _ | tables _ => "sequence"
  | dateTime | table .. => "map"

/-- The name of the kind of value. -/
def typeName : Value → String
  | text _ => "string"
  | integer _ => "integer"
  | float _ => "float"
  | boolean _ => "boolean"
  | dateTime => "datetime"
  | array _ => "array"
  | tables _ => "array of tables"
  | table .inline _ => "inline table"
  | table .. => "table"

end Value

namespace Entries

/-- The value of a key. -/
def find? (es : Entries) (name : String) : Option (Span × Value) :=
  (List.find? (·.1.name == name) es).map (·.2)

/-- The entries with another value for a key that is there. -/
def replace (es : Entries) (name : String) (value : Span × Value) : Entries :=
  es.map fun e => if e.1.name == name then (e.1, value) else e

/-- The entries without a key. -/
def erase (es : Entries) (name : String) : Entries := es.filter (·.1.name != name)

/-! ### Assignments -/

/-- The entries with a value under a dotted key.  The keys before the last lead through tables,
which are made where they are missing, and into the last of several tables of one key.  A table
opened by a header of its own or written in braces is closed to dotted keys, and the last key goes
only into a table that dotted keys have made. -/
def assign : (path : List Key) → Key → Span × Value → Entries → Option Entries
  | [], key, value, es => if (es.find? key.name).isSome then none else some (es ++ [(key, value)])
  | k :: path, key, value, es =>
    match es.find? k.name with
    | none => do
      let inner ← assign path key value []
      return es ++ [(k, k.span, .table .dotted inner)]
    | some (span, .table .dotted inner) => do
      let inner ← assign path key value inner
      return es.replace k.name (span, .table .dotted inner)
    | some (span, .table .implied inner) =>
      if path.isEmpty then none
      else do
        let inner ← assign path key value inner
        return es.replace k.name (span, .table .implied inner)
    | some (span, .tables elements) =>
      match path.isEmpty, elements.getLast? with
      | false, some (last, inner) => do
        let inner ← assign path key value inner
        return es.replace k.name (span, .tables (elements.dropLast ++ [(last, inner)]))
      | _, _ => none
    | _ => none

/-! ### Headers -/

/-- The entries after a change to the table that the keys of a header lead to.  They lead through
tables of any origin but braces, and into the last of several tables of one key. -/
def changeAt : (path : List Key) → (Entries → Option Entries) → Entries → Option Entries
  | [], change, es => change es
  | k :: path, change, es =>
    match es.find? k.name with
    | none => do
      let inner ← changeAt path change []
      return es ++ [(k, k.span, .table .implied inner)]
    | some (_, .table .inline _) => none
    | some (span, .table origin inner) => do
      let inner ← changeAt path change inner
      return es.replace k.name (span, .table origin inner)
    | some (span, .tables elements) =>
      match elements.getLast? with
      | none => none
      | some (last, inner) => do
        let inner ← changeAt path change inner
        return es.replace k.name (span, .tables (elements.dropLast ++ [(last, inner)]))
    | _ => none

/-- The entries with a table opened by a header.  Only a table that longer headers have led
through may be there already; its key then moves to where its own header stands. -/
def openTable (key : Key) (span : Span) (es : Entries) : Option Entries :=
  match es.find? key.name with
  | none => some (es ++ [(key, span, .table .header [])])
  | some (_, .table .implied inner) =>
    some (es.erase key.name ++ [(key, span, .table .header inner)])
  | _ => none

/-- The entries with one more table of a key, opened by a header in double brackets. -/
def openElement (key : Key) (span : Span) (es : Entries) : Option Entries :=
  match es.find? key.name with
  | none => some (es ++ [(key, span, .tables [(span, [])])])
  | some (all, .tables elements) =>
    some (es.replace key.name
      (⟨all.leftAtStart, span.leftAtEnd⟩, .tables (elements ++ [(span, [])])))
  | _ => none

end Entries

end SyntaxView.Toml
