import SyntaxView.Parser.Basic

/-!
# The parser pool

Parsers that are not in use, at most one for each language and encoding.  A parser is taken out of
the pool while it is in use and put back under the key it was taken for.  None is handed out if a
new one would be needed and the engine refuses its language.
-/

namespace SyntaxView

/-- Idle parsers under their keys. -/
structure ParserPool where
  entries : List ((Language × Encoding) × Parser)
  deriving Repr

namespace ParserPool

def empty : ParserPool := ⟨[]⟩

variable (pool : ParserPool)

def size : Nat := pool.entries.length

/-- The pool without the parser of a key. -/
def erase (key : Language × Encoding) : ParserPool :=
  ⟨pool.entries.filter (·.1 != key)⟩

/-- A parser for a language and an encoding, and the pool without it.  If there is none a new one
is made, under the number `serial`. -/
def take (check : LanguageCheck) (serial : Nat) (key : Language × Encoding) :
    Except Fault (Parser × ParserPool) :=
  match pool.entries.lookup key with
  | some parser => .ok (parser, pool.erase key)
  | none =>
    match Parser.ofLanguage check serial key.1 with
    | .error fault => .error fault
    | .ok parser => .ok (parser.setEncoding key.2, pool)

/-- The pool with a parser under a key, in the place of one that may be there. -/
def put (key : Language × Encoding) (parser : Parser) : ParserPool :=
  ⟨(key, parser) :: (pool.erase key).entries⟩

/-- Taking out the parser of a key keeps those of all other keys. -/
theorem mem_entries_erase {pool : ParserPool} {key : Language × Encoding}
    {e : (Language × Encoding) × Parser} :
    e ∈ (pool.erase key).entries ↔ e ∈ pool.entries ∧ e.1 ≠ key := by
  simp [erase]

/-- Putting a parser back adds it to those of all other keys. -/
theorem mem_entries_put {pool : ParserPool} {key : Language × Encoding} {parser : Parser}
    {e : (Language × Encoding) × Parser} :
    e ∈ (pool.put key parser).entries ↔ e = (key, parser) ∨ e ∈ pool.entries ∧ e.1 ≠ key := by
  simp [put, mem_entries_erase]

end ParserPool

end SyntaxView
