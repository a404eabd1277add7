import SyntaxView.Fault
import SyntaxView.Query.Pattern

/-!
# Queries

A query is a text with patterns, compiled by the engine for one language.  What the compilation
leaves behind is the list of captures and, for each pattern, where it starts.
-/

namespace SyntaxView

/-- What the engine makes of the text of a query. -/
structure CompiledQuery where
  captures : List String
  table : List PatternEntry
  deriving Repr, DecidableEq

/-- The engine's compiler: what it makes of a text for a language. -/
abbrev QueryCompiler := Language → String → Except QueryError CompiledQuery

/-- A compiled query. -/
structure Query where
  /-- The number that tells a query from every other one, of the same text too. -/
  serial : Nat
  language : Language
  source : String
  compiled : CompiledQuery
  deriving Repr, DecidableEq

namespace Query

/-- The query of a text.  A text of nothing but white space is refused before the engine sees
it. -/
def compile (compiler : QueryCompiler) (serial : Nat) (language : Language) (source : String) :
    Except Fault Query :=
  if (Text.trim source.toList).isEmpty then
    .error (.badQuery ⟨.syntaxError, 0, 0, 0, "query must contain at least one pattern"⟩)
  else
    match compiler language source with
    | .error error => .error (.badQuery error)
    | .ok compiled => .ok ⟨serial, language, source, compiled⟩

variable (q : Query)

def captures : List String := q.compiled.captures

def patternCount : Nat := q.compiled.table.length

/-- The patterns of a query, cut where `table` says; the engine can be asked for it again at any
time. -/
def patternsAt (table : List PatternEntry) : List Pattern :=
  Pattern.split q.source.toList 0 table

/-- The patterns of a query. -/
def patterns : List Pattern := q.patternsAt q.compiled.table

/-- Whether a pattern may be switched off: it has to be there. -/
def checkPattern (index : Nat) : Except Fault Unit :=
  if q.patternCount ≤ index then .error (.indexOutOfRange index q.patternCount) else .ok ()

/-- Whether a capture may be switched off: it has to be there. -/
def checkCapture (name : String) : Except Fault Unit :=
  if q.captures.contains name then .ok () else .error (.badArgument (.noCapture name))

def describe : String :=
  let captures := ", ".intercalate (q.captures.map Text.quoted)
  s!"Query \x7b language: {q.language.describe}, patterns: {q.patternCount}, " ++
    s!"captures: [{captures}] \x7d"

end Query

end SyntaxView
