import SyntaxView.Position.Point

/-!
# Syntax trees

The engine's answer to a parse: a finite ordered tree with a label at each node.  Offsets and
columns in labels are native, that is, they count bytes of the encoded text.
-/

namespace SyntaxView

/-- What the engine says of one node. -/
structure Label where
  kind : String
  isNamed : Bool
  isExtra : Bool
  isMissing : Bool
  isError : Bool
  hasError : Bool
  startByte : Nat
  endByte : Nat
  startPoint : Point
  endPoint : Point
  parseState : Nat
  nextParseState : Nat
  /-- The field a walk reports when it comes to the node from its parent. -/
  walkField : Option String
  /-- The field the parent gives for the node when asked by index.  The engine derives the two in
  different ways, and they can differ. -/
  childField : Option String
  deriving Repr, DecidableEq, Inhabited

/-- A node with its children in order. -/
inductive Syntax where
  | node (label : Label) (children : List Syntax)
  deriving Repr, Inhabited

namespace Syntax

def label : Syntax → Label
  | node label _ => label

def children : Syntax → List Syntax
  | node _ children => children

/-! ### Sizes -/

mutual

/-- The number of nodes of a tree. -/
def size : Syntax → Nat
  | node _ children => 1 + sizeAll children

/-- The number of nodes of several trees. -/
def sizeAll : List Syntax → Nat
  | [] => 0
  | t :: ts => size t + sizeAll ts

end

/-- A tree has its root and the nodes of its children. -/
theorem size_eq (t : Syntax) : t.size = 1 + sizeAll t.children := by
  cases t
  simp [size, children]

/-! ### Trees from a list of nodes

The engine hands over a tree as the list of its nodes in pre-order, each with the index of its
parent.  The list is read from its end: when a node is reached all its children are already whole
trees waiting for it, in order.
-/

/-- The trees of a list of nodes that still wait for a parent further to the front, each with the
index of this parent.  The first node of the list has index `index`. -/
def gather : (index : Nat) → List (Option Nat × Label) → List (Option Nat × Syntax)
  | _, [] => []
  | index, (parent, label) :: rest =>
    let waiting := gather (index + 1) rest
    let mine := waiting.filter fun w => w.1 == some index
    let others := waiting.filter fun w => w.1 != some index
    (parent, node label (mine.map (·.2))) :: others

/-- The tree of a list of nodes in pre-order.  Its root is the node that names no parent. -/
def ofPreorder? (nodes : List (Option Nat × Label)) : Option Syntax :=
  ((gather 0 nodes).find? (·.1.isNone)).map (·.2)

end Syntax

end SyntaxView
