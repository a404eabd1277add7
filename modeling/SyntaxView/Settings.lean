import SyntaxView.Fault
import SyntaxView.Toml.Report

/-!
# Settings

The defaults a parser and its queries are set up with: a language, an encoding and a limit on
matches in progress.  They are read from a TOML document, which may hold nothing else.  What is
wrong with a document is a `Problem` at a span; of several the first in the order of the keys is
the one that is reported, and a missing language comes after all of them.
-/

namespace SyntaxView

/-- The settings of a parser and its queries. -/
structure Settings where
  language : Language
  encoding : Encoding
  matchLimit : Option Nat
  deriving Repr, DecidableEq

namespace Settings

/-- What can be wrong with a document that is TOML. -/
inductive Problem where
  /-- No setting has that name. -/
  | unknownKey (name : String)
  /-- No setting for queries has that name. -/
  | unknownQueryKey (name : String)
  | missingLanguage
  | unknownLanguage (name : String)
  | languageNotText (found : Toml.Value)
  | unknownEncoding (name : String)
  | encodingNotText
  /-- The encoding is a table, but not of one key. -/
  | encodingNotOneKey (many : Bool)
  /-- The encoding is a table of one key, but that key has entries or items. -/
  | encodingWithEntries
  /-- The encoding is a table of one key, but that key has tables of its own. -/
  | encodingWithTables
  /-- The encoding is a table of one key, but that key has neither a table nor an array. -/
  | encodingWithValue (found : Toml.Value)
  | queryNotTable (found : Toml.Value)
  | queryWithoutItems
  | limitNotInteger (found : Toml.Value)
  | limitOutOfRange (value : Int)
  deriving Repr

namespace Problem

def message : Problem → String
  | unknownKey name => s!"unknown field `{name}`, expected one of `language`, `encoding`, `query`"
  | unknownQueryKey name => s!"unknown field `{name}`, expected `match_limit`"
  | missingLanguage => "missing field `language`"
  | unknownLanguage name => s!"unknown language: {name}"
  | languageNotText found => s!"invalid type: {found.describe}, expected a string"
  | unknownEncoding name =>
    s!"unknown variant `{name}`, expected one of `utf-8`, `utf8`, `utf-16`, `utf16`"
  | encodingNotText => "wanted string or table"
  | encodingNotOneKey false => "wanted exactly 1 element, found 0 elements"
  | encodingNotOneKey true => "wanted exactly 1 element, more than 1 element"
  | encodingWithEntries => "expected empty table"
  | encodingWithTables => "expected empty array"
  | encodingWithValue found => s!"expected table, found {found.typeName}"
  | queryNotTable found => s!"invalid type: {found.describe}, expected struct QuerySettings"
  | queryWithoutItems => "invalid length 0, expected struct QuerySettings with 1 element"
  | limitNotInteger found => s!"invalid type: {found.describe}, expected a nonzero u32"
  | limitOutOfRange value => s!"invalid value: integer `{value}`, expected a nonzero u32"

end Problem

/-- A problem and the part of the text it is in; the whole text has none of its own. -/
structure Complaint where
  span : Option Toml.Span
  problem : Problem
  deriving Repr

/-! ### The values -/

/-- The language a value names. -/
def languageOf : Toml.Item → Except Complaint Language
  | (span, .text name) =>
    match Language.ofName? name with
    | some l => .ok l
    | none => .error ⟨span, .unknownLanguage name⟩
  | (span, value) => .error ⟨span, .languageNotText value⟩

/-- The encoding of that spelling. -/
def encodingNamed (span : Toml.Span) (name : String) : Except Complaint Encoding :=
  match Encoding.ofSpelling? name with
  | some e => .ok e
  | none => .error ⟨span, .unknownEncoding name⟩

/-- The encoding a value names: by its spelling, or by a table with the spelling as its only key and
an empty table or array under it. -/
def encodingOf : Toml.Item → Except Complaint Encoding
  | (span, .text name) => encodingNamed span name
  | (span, .table _ []) => .error ⟨span, .encodingNotOneKey false⟩
  | (_, .table _ [(key, span, value)]) => do
    let e ← encodingNamed key.span key.name
    match value with
    | .table _ [] | .array [] | .tables [] => .ok e
    | .table _ (_ :: _) | .array (_ :: _) => .error ⟨span, .encodingWithEntries⟩
    | .tables (_ :: _) => .error ⟨span, .encodingWithTables⟩
    | value => .error ⟨span, .encodingWithValue value⟩
  | (span, .table _ (_ :: _ :: _)) => .error ⟨span, .encodingNotOneKey true⟩
  | (span, _) => .error ⟨span, .encodingNotText⟩

/-- The limit a value gives: a positive integer of 32 bits. -/
def limitOf : Toml.Item → Except Complaint Nat
  | (span, .integer n) =>
    if 0 < n ∧ n ≤ 0xFFFFFFFF then .ok n.toNat else .error ⟨span, .limitOutOfRange n⟩
  | (span, value) => .error ⟨span, .limitNotInteger value⟩

/-- The limit in the entries of the table of query settings; `sofar` is the one found before. -/
def limitIn : (sofar : Option Nat) → Toml.Entries → Except Complaint (Option Nat)
  | sofar, [] => .ok sofar
  | _, (key, item) :: rest =>
    if key.name = "match_limit" then
      match limitOf item with
      | .error complaint => .error complaint
      | .ok limit => limitIn (some limit) rest
    else .error ⟨key.span, .unknownQueryKey key.name⟩

/-- The key under which a date shows when it is taken for a table. -/
def dateKey : String := "$__toml_private_datetime"

/-- The query settings of a value: those of a table by their keys, those of an array by their
place. -/
def queryOf : Toml.Item → Except Complaint (Option Nat)
  | (_, .table _ entries) => limitIn none entries
  | (span, .array []) | (span, .tables []) => .error ⟨span, .queryWithoutItems⟩
  | (_, .array (item :: _)) => (limitOf item).map some
  | (_, .tables ((span, entries) :: _)) => (limitOf (span, .table .header entries)).map some
  | (span, .dateTime) => .error ⟨span, .unknownQueryKey dateKey⟩
  | (span, value) => .error ⟨span, .queryNotTable value⟩

/-! ### The document -/

/-- The settings found so far. -/
structure Found where
  language : Option Language
  encoding : Option Encoding
  query : Option (Option Nat)
  deriving Repr

/-- One entry of the document. -/
def readEntry (found : Found) : Toml.Key × Toml.Item → Except Complaint Found
  | (key, item) =>
    if key.name = "language" then
      (languageOf item).map fun l => { found with language := some l }
    else if key.name = "encoding" then
      (encodingOf item).map fun e => { found with encoding := some e }
    else if key.name = "query" then
      (queryOf item).map fun q => { found with query := some q }
    else .error ⟨key.span, .unknownKey key.name⟩

/-- The settings of a document.  An encoding that is not there is UTF-8, and without a limit there
is none. -/
def read (document : Toml.Entries) : Except Complaint Settings := do
  let found ← document.foldlM readEntry ⟨none, none, none⟩
  match found.language with
  | none => .error ⟨none, .missingLanguage⟩
  | some language =>
    return ⟨language, found.encoding.getD .utf8, (found.query.getD none)⟩

/-! ### Texts and files -/

/-- Why settings could not be loaded. -/
inductive LoadError where
  /-- The file could not be read. -/
  | unreadable (path : String) (error : IoError)
  /-- The text of the file, if it is one, is no TOML. -/
  | notToml (path : Option String)
  /-- The text of the file, if it is one, does not fit; `report` shows where and why. -/
  | invalid (path : Option String) (report : String)
  deriving Repr, DecidableEq

namespace LoadError

/-- The file an error comes from, in parentheses. -/
def originOf : Option String → String
  | none => ""
  | some path => s!" ({path})"

def message : LoadError → String
  | unreadable path error => s!"failed to read config from {path}: {error.message}"
  | notToml path => s!"invalid config{originOf path}: <syntax>"
  | invalid path report => s!"invalid config{originOf path}: {report}"

end LoadError

namespace Complaint

/-- The complaint, shown in the text it is about. -/
def report (c : Complaint) (text : List Char) : String :=
  match c.span with
  | some span => span.report text c.problem.message
  | none => Toml.report text 0 0 c.problem.message

end Complaint

/-- The settings of a text, which may come from a file. -/
def loadText (path : Option String) (text : String) : Except LoadError Settings :=
  match Toml.read? text.toList with
  | none => .error (.notToml path)
  | some document =>
    match read document with
    | .ok settings => .ok settings
    | .error complaint => .error (.invalid path (complaint.report text.toList))

/-- The settings of a text. -/
def load (text : String) : Except LoadError Settings := loadText none text

/-- The settings of a file. -/
def loadFile (files : FileSystem) (path : String) : Except LoadError Settings :=
  match files.readText path with
  | .error error => .error (.unreadable path error)
  | .ok text => loadText (some path) text

end Settings

end SyntaxView
