import SyntaxView.Query.Predicate
import SyntaxView.Text.Utf8

/-!
# Patterns

The patterns of a query.  The engine says at which byte of the query's text each pattern starts; a
pattern then goes on to the start of the next one, the last to the end of the text, and the white
space at its end is dropped.
-/

namespace SyntaxView

/-! ### Cutting a text by bytes -/

namespace Text.Utf8

/-- What is left of a text after its first `count` bytes, if they are whole characters. -/
def drop? : (count : Nat) → List Char → Option (List Char)
  | 0, s => some s
  | _ + 1, [] => none
  | count + 1, c :: s =>
    if c.utf8Size ≤ count + 1 then drop? (count + 1 - c.utf8Size) s else none

/-- The first `count` bytes of a text, if they are whole characters. -/
def take? : (count : Nat) → List Char → Option (List Char)
  | 0, _ => some []
  | _ + 1, [] => none
  | count + 1, c :: s =>
    if c.utf8Size ≤ count + 1 then (take? (count + 1 - c.utf8Size) s).map (c :: ·) else none

/-- The bytes of a text from `start` up to `stop`, if they are there and are whole characters. -/
def slice? (start stop : Nat) (s : List Char) : Option (List Char) :=
  if start ≤ stop then (drop? start s).bind (take? (stop - start)) else none

end Text.Utf8

/-! ### Patterns -/

/-- What the engine says of one pattern. -/
structure PatternEntry where
  start : Nat
  rooted : Bool
  nonLocal : Bool
  deriving Repr, DecidableEq

/-- One pattern of a query. -/
structure Pattern where
  index : Nat
  startOffset : Nat
  rooted : Bool
  nonLocal : Bool
  value : String
  predicates : List Predicate
  deriving Repr, DecidableEq

namespace Pattern

/-- The offset at which the text of the pattern ends. -/
def endOffset (p : Pattern) : Nat := p.startOffset + Text.Utf8.size p.value.toList

/-- The text of a pattern between two offsets of its query.  Offsets that split a character, lie
outside the text or are reversed cut out nothing. -/
def cut (source : List Char) (start stop : Nat) : List Char :=
  Text.trimEnd ((Text.Utf8.slice? start stop source).getD [])

/-- The patterns of a text from the `index`-th on, of which `table` says where they start. -/
def split (source : List Char) : (index : Nat) → (table : List PatternEntry) → List Pattern
  | _, [] => []
  | index, entry :: later =>
    let stop := match later with
      | [] => Text.Utf8.size source
      | next :: _ => next.start
    let value := cut source entry.start stop
    { index := index
      startOffset := entry.start
      rooted := entry.rooted
      nonLocal := entry.nonLocal
      value := .ofList value
      predicates := PredicateText.scan value } :: split source (index + 1) later

end Pattern

end SyntaxView
