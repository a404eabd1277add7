import SyntaxView.Query.Basic

/-!
# The query cache

Compiled queries by language and text, so that a text is compiled once and its query shared.  The
cache is emptied, rather than thinned out, when it is full and one more query is asked for.
-/

namespace SyntaxView

/-- Compiled queries under their keys. -/
structure QueryCache where
  entries : List (String × Query)
  deriving Repr

namespace QueryCache

/-- The number of queries a cache holds at most. -/
def capacity : Nat := 256

def empty : QueryCache := ⟨[]⟩

/-- The key of a text for a language.  No language has a colon in its name, so the key gives both
away whatever the text. -/
def key (language : Language) (source : String) : String := language.name ++ ":" ++ source

variable (cache : QueryCache)

def size : Nat := cache.entries.length

/-- The cache with room for one more query. -/
def makeRoom : QueryCache := if capacity ≤ cache.size then empty else cache

/-- The query of a text: the one in the cache, or else a new one, which is then kept.  A text that
cannot be compiled is not kept, but room has been made for it all the same. -/
def getOrCompile (compile : Language → String → Except Fault Query) (language : Language)
    (source : String) : Except Fault Query × QueryCache :=
  match cache.entries.lookup (key language source) with
  | some query => (.ok query, cache)
  | none =>
    let cache := cache.makeRoom
    match compile language source with
    | .error fault => (.error fault, cache)
    | .ok query => (.ok query, ⟨(key language source, query) :: cache.entries⟩)

end QueryCache

end SyntaxView
