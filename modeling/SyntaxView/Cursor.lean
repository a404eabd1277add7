import SyntaxView.Node

/-!
# Cursors

A cursor walks a subtree: it starts at a node, its origin, and never leaves what is below it, even
where the origin has siblings or a parent.  Its moves say whether they succeeded, and one that did
not leaves the cursor where it was.
-/

namespace SyntaxView

/-- A walk below a node. -/
structure Cursor where
  tree : Tree
  /-- Where the walk started. -/
  origin : Location
  /-- Where the walk has come to, in the subtree of its origin. -/
  here : Location
  deriving Repr

/-- What a cursor shows of the node it is on. -/
structure Snapshot where
  field : Option String
  kind : String
  content : String
  startByte : Nat
  endByte : Nat
  startPoint : Point
  endPoint : Point
  isNamed : Bool
  deriving Repr, DecidableEq

namespace Snapshot

/-- The node in one line: the field it fills, its kind and its two points. -/
def render (s : Snapshot) : String :=
  let line := s!"{s.kind} [{s.startPoint.render}] - [{s.endPoint.render}]"
  match s.field with
  | some name => s!"{name}: {line}"
  | none => line

end Snapshot

namespace Cursor

/-- A walk that starts at a place of a tree. -/
def start (t : Tree) (origin : Location) : Cursor := ⟨t, origin, .root origin.focus⟩

/-- A walk that starts at a node. -/
def ofNode (n : Node) : Except Fault Cursor :=
  match n.place with
  | none => .error (.badState .cursorOnNull)
  | some l => .ok (start n.tree l)

/-- A walk over a whole tree. -/
def ofTree (t : Tree) : Cursor := start t (.root t.shape)

variable (c : Cursor)

/-- The node the cursor is on. -/
def node : Node := ⟨c.tree, some (c.origin.within c.here)⟩

/-- The number of steps down from the origin. -/
def depth : Nat := c.here.depth

/-- The field that the node fills.  At its origin a cursor knows of no field. -/
def field? : Option String := if c.depth = 0 then none else c.here.label.walkField

/-- What the cursor shows of the node it is on. -/
def snapshot : Snapshot where
  field := c.field?
  kind := c.node.kind?.getD ""
  content := c.node.content?.getD ""
  startByte := c.node.startByte
  endByte := c.node.endByte
  startPoint := c.node.startPoint
  endPoint := c.node.endPoint
  isNamed := c.node.isNamed

/-! ### Moves -/

/-- A move, and whether it succeeded. -/
def move (step : Location → Option Location) : Cursor × Bool :=
  match step c.here with
  | some l => ({ c with here := l }, true)
  | none => (c, false)

def gotoFirstChild : Cursor × Bool := c.move Location.firstChild?

def gotoNextSibling : Cursor × Bool := c.move Location.nextSibling?

def gotoParent : Cursor × Bool := c.move Location.parent?

/-- A new walk, from another node of the same tree. -/
def reset (n : Node) : Except Fault Cursor :=
  if n.tree.id ≠ c.tree.id then .error (.badArgument .foreignNode)
  else
    match n.place with
    | none => .error (.badState .resetToNull)
    | some l => .ok (start c.tree l)

/-! ### Walks -/

/-- The nodes from the present one to the end of the subtree, and the cursor back at its
origin. -/
def preorder : List Node × Cursor :=
  let (seen, last) := c.here.traverse
  (seen.map fun l => ({ c with here := l } : Cursor).node, { c with here := last })

def describe : String :=
  s!"TreeCursor(tree: {c.tree.id}, depth: {c.depth}, node: {c.node.describe})"

end Cursor

/-! ### Descendants one by one -/

/-- The nodes of a subtree still to be handed out: a cursor on the next of them, unless all are
out. -/
structure Descendants where
  cursor : Option Cursor
  done : Bool
  deriving Repr

namespace Descendants

/-- The node and everything below it; the null node has no descendants. -/
def ofNode (n : Node) : Descendants := ⟨(Cursor.ofNode n).toOption, false⟩

/-- The next node, and what is left after it. -/
def next (d : Descendants) : Option Node × Descendants :=
  if d.done then (none, d)
  else
    match d.cursor with
    | none => (none, d)
    | some c =>
      match c.here.advance with
      | .inr l => (some c.node, { d with cursor := some { c with here := l } })
      | .inl l => (some c.node, ⟨some { c with here := l }, true⟩)

/-- The first `count` nodes that are left, fewer if there are no more. -/
def take : (count : Nat) → Descendants → List Node
  | 0, _ => []
  | count + 1, d =>
    match d.next with
    | (some n, rest) => n :: take count rest
    | (none, _) => []

end Descendants

namespace Node

/-- The node and everything below it, each node before its children. -/
def descendants (n : Node) : List Node :=
  match n.place with
  | none => []
  | some l => (Descendants.ofNode n).take l.focus.size

end Node

end SyntaxView
