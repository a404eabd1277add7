import SyntaxView.Position.Encoding
import SyntaxView.Language
import SyntaxView.Files

/-!
# Faults

What can go wrong in this library, as causes.  A fault has a kind, by which a caller tells faults
apart, and a message for a reader; both are functions of the cause.
-/

namespace SyntaxView

/-- What the engine found wrong with a query. -/
inductive QueryFlaw where
  | syntaxError
  | nodeType
  | field
  | capture
  | predicate
  | impossible
  | language
  deriving Repr, DecidableEq

namespace QueryFlaw

def message : QueryFlaw → String
  | syntaxError => "syntax error"
  | nodeType => "bad node type"
  | field => "bad field"
  | capture => "bad capture"
  | predicate => "bad predicate"
  | impossible => "impossible pattern"
  | language => "incompatible language"

end QueryFlaw

/-- A query the engine does not accept: the flaw, where it is, and the engine's remark. -/
structure QueryError where
  flaw : QueryFlaw
  offset : Nat
  row : Nat
  column : Nat
  remark : String
  deriving Repr, DecidableEq

/-- An argument that no call may be given. -/
inductive BadArgument where
  /-- A field was asked for by an empty name. -/
  | emptyFieldName
  /-- A range ends before it starts. -/
  | reversedRange (start stop : Nat)
  /-- A query has no such capture. -/
  | noCapture (name : String)
  /-- A cursor was sent to a node of another tree. -/
  | foreignNode
  /-- A directory was given for a file. -/
  | directory (path : String)
  /-- A tree was given to a parser of another encoding. -/
  | otherEncoding (tree parser : Encoding)
  /-- Anything else, in words. -/
  | other (message : String)
  deriving Repr, DecidableEq

namespace BadArgument

def message : BadArgument → String
  | emptyFieldName => "field name must not be empty"
  | reversedRange start stop => s!"range start {start} is greater than range end {stop}"
  | noCapture name => s!"query has no capture named '{name}'"
  | foreignNode => "cursor can only be reset to a node of its own tree"
  | directory path => s!"{path} is a directory"
  | otherEncoding tree parser =>
    s!"old tree uses {tree.name} offsets but the parser is set to {parser.name}"
  | other message => message

end BadArgument

/-- A state in which a call cannot be served. -/
inductive BadState where
  /-- A parser was asked to parse before it had a language. -/
  | noLanguage
  /-- A cursor was asked for on the null node. -/
  | cursorOnNull
  /-- A cursor was sent to the null node. -/
  | resetToNull
  /-- A query was to run on the null node. -/
  | queryOnNull
  /-- A query was to run on a tree of another language. -/
  | otherLanguage (query tree : Language)
  /-- Anything else, in words. -/
  | other (message : String)
  deriving Repr, DecidableEq

namespace BadState

def message : BadState → String
  | noLanguage => "parser has no language assigned"
  | cursorOnNull => "cannot construct a tree cursor from the null node"
  | resetToNull => "cannot reset a tree cursor to the null node"
  | queryOnNull => "cannot construct a query cursor from the null node"
  | otherLanguage query tree => s!"query for {query.name} cannot run on a {tree.name} tree"
  | other message => message

end BadState

/-- Everything a call of this library can fail with. -/
inductive Fault where
  | indexOutOfRange (index count : Nat)
  | offsetOutOfRange (offset start stop : Nat)
  | badArgument (cause : BadArgument)
  | badState (cause : BadState)
  | badQuery (error : QueryError)
  | parseFailed
  | languageRefused (language : String) (remark : String)
  | unknownLanguage (name : String)
  | unreadable (path : String) (remark : String)
  deriving Repr, DecidableEq

/-- The kinds by which faults are told apart. -/
inductive FaultKind where
  | indexOutOfRange
  | invalidArgument
  | illegalState
  | querySyntax
  | parseFailure
  | language
  | io
  deriving Repr, DecidableEq

namespace Fault

def kind : Fault → FaultKind
  | indexOutOfRange .. | offsetOutOfRange .. => .indexOutOfRange
  | badArgument _ => .invalidArgument
  | badState _ => .illegalState
  | badQuery _ => .querySyntax
  | parseFailed => .parseFailure
  | languageRefused .. | unknownLanguage _ => .language
  | unreadable .. => .io

def message : Fault → String
  | indexOutOfRange index count =>
    s!"child index {index} is out of range for a node with {count} children"
  | offsetOutOfRange offset start stop =>
    s!"byte offset {offset} is outside of the node range {start}..={stop}"
  | badArgument cause => s!"invalid argument: {cause.message}"
  | badState cause => s!"illegal state: {cause.message}"
  | badQuery error =>
    s!"invalid query ({error.flaw.message}) at byte {error.offset}, row {error.row}, " ++
      s!"column {error.column}: {error.remark}"
  | parseFailed => "failed to parse source code"
  | languageRefused language remark =>
    s!"failed to set language {language} for parser: {remark}"
  | unknownLanguage name => s!"unknown language: {name}"
  | unreadable path remark => s!"I/O error reading {path}: {remark}"

end Fault

namespace Language

/-- The language a name stands for. -/
def ofName (s : String) : Except Fault Language :=
  match ofName? s with
  | some l => .ok l
  | none => .error (.unknownLanguage s)

/-- The language that the extension of a path points to.  A directory is refused whatever its
name. -/
def ofPath (files : FileSystem) (path : String) : Except Fault (Option Language) :=
  if files.isDirectory path then .error (.badArgument (.directory path))
  else .ok ((Path.extension? path).bind ofExtension?)

end Language

end SyntaxView
