import SyntaxView.Node
import SyntaxView.Query.Basic

/-!
# Running queries

A query cursor runs a query below a node, within a range of the text if one is set and with a
limit on the number of matches in progress if one is set.  The engine finds the matches; here they
are given their names and nodes.
-/

namespace SyntaxView

/-- What the engine finds in one run: the matches, each with its pattern and its captures as
pairs of a capture's index and a node's index, and whether the limit was exceeded. -/
structure QueryRun where
  found : List (Nat × List (Nat × Nat))
  exceeded : Bool
  deriving Repr, DecidableEq

/-- One match: the index of its pattern, and its captures in order. -/
structure QueryMatch where
  pattern : Nat
  captures : List (String × Node)
  deriving Repr

/-- A query on its way below a node. -/
structure QueryCursor where
  query : Query
  node : Node
  /-- The range in which matches are looked for, in native units. -/
  range : Option (Nat × Nat)
  matchLimit : Option Nat
  /-- Whether the last run exceeded the limit. -/
  exceeded : Bool
  deriving Repr

namespace QueryMatch

/-- The nodes captured under a name, in order. -/
def nodesFor (m : QueryMatch) (name : String) : List Node :=
  (m.captures.filter (·.1 == name)).map (·.2)

/-- A match of the engine, with names and nodes for its indices. -/
def ofFound (captures : List String) (t : Tree) (found : Nat × List (Nat × Nat)) : QueryMatch where
  pattern := found.1
  captures := found.2.map fun (name, index) => (captures[name]?.getD "", .ofIndex t (some index))

end QueryMatch

namespace QueryCursor

/-- A cursor for a query below a node.  The null node has nothing below it, and a query runs only
on trees of its own language. -/
def start (q : Query) (n : Node) : Except Fault QueryCursor :=
  if n.isNull then .error (.badState .queryOnNull)
  else if q.language ≠ n.tree.language then
    .error (.badState (.otherLanguage q.language n.tree.language))
  else .ok ⟨q, n, none, none, false⟩

variable (c : QueryCursor)

/-- Look for matches within a range only. -/
def setByteRange (start stop : Nat) : Except Fault QueryCursor :=
  if stop < start then .error (.badArgument (.reversedRange start stop))
  else .ok { c with range := some (c.node.encoding.toNative start, c.node.encoding.toNative stop) }

/-- Keep no more than that many matches in progress. -/
def setMatchLimit (limit : Nat) : QueryCursor := { c with matchLimit := some limit }

/-- All matches of a run of the engine, which is asked for the range and the limit that are set. -/
def execute (engine : Option (Nat × Nat) → Option Nat → QueryRun) :
    List QueryMatch × QueryCursor :=
  let run := engine c.range c.matchLimit
  (run.found.map (.ofFound c.query.captures c.node.tree), { c with exceeded := run.exceeded })

def describe : String := s!"QueryCursor(node: {c.node.describe}, query: {c.query.describe})"

end QueryCursor

namespace Query

/-- All matches of a query below a node. -/
def findAll (q : Query) (n : Node) (engine : Option (Nat × Nat) → Option Nat → QueryRun) :
    Except Fault (List QueryMatch) := do
  let cursor ← QueryCursor.start q n
  return (cursor.execute engine).1

end Query

end SyntaxView
