import SyntaxView.Fault
import SyntaxView.Tree

/-!
# Nodes

A node is a place in a tree, or the null node of a tree, which stands for a place that is not
there.  The null node answers every question with nothing: no kind, no text, no children, and all
numbers zero.

Numbers are in the caller's unit.  Where the engine is asked about a place in the text it is asked
in its own unit, and its answers, which name nodes by their index in pre-order, come back through
`Tree.locate?`.
-/

namespace SyntaxView

/-- A place in a tree, or its null node. -/
structure Node where
  tree : Tree
  place : Option Location
  deriving Repr

namespace Node

/-- The root of a tree. -/
def root (t : Tree) : Node := ⟨t, some (.root t.shape)⟩

/-- The null node of a tree. -/
def null (t : Tree) : Node := ⟨t, none⟩

/-- The node the engine names by its index, or the null node. -/
def ofIndex (t : Tree) (index : Option Nat) : Node := ⟨t, index.bind t.locate?⟩

variable (n : Node)

def isNull : Bool := n.place.isNone

/-- The label of the node, if it is not null. -/
def label? : Option Label := n.place.map (·.label)

def encoding : Encoding := n.tree.encoding

/-! ### What a node says of itself -/

def kind? : Option String := n.label?.map (·.kind)

def isNamed : Bool := n.label?.any (·.isNamed)

def isExtra : Bool := n.label?.any (·.isExtra)

def isMissing : Bool := n.label?.any (·.isMissing)

def isError : Bool := n.label?.any (·.isError)

def hasError : Bool := n.label?.any (·.hasError)

def parseState : Nat := (n.label?.map (·.parseState)).getD 0

def nextParseState : Nat := (n.label?.map (·.nextParseState)).getD 0

def startByte : Nat := (n.label?.map fun l => n.encoding.fromNative l.startByte).getD 0

def endByte : Nat := (n.label?.map fun l => n.encoding.fromNative l.endByte).getD 0

def startPoint : Point :=
  (n.label?.map fun l => n.encoding.pointFromNative l.startPoint).getD .origin

def endPoint : Point :=
  (n.label?.map fun l => n.encoding.pointFromNative l.endPoint).getD .origin

def range : Range := ⟨n.startByte, n.endByte, n.startPoint, n.endPoint⟩

/-- The text of the node. -/
def content? : Option String := n.label?.map fun l => n.tree.source.text l.startByte l.endByte

/-- The node as a parenthesised expression, which the engine writes. -/
def expression (engine : String) : String := if n.isNull then "" else engine

/-! ### Neighbours -/

/-- Another place in the same tree. -/
def atPlace (place : Location) : Node := ⟨n.tree, some place⟩

/-- The children of a node. -/
def children : List Node :=
  match n.place with
  | none => []
  | some l => l.children.map n.atPlace

def childCount : Nat := n.children.length

def namedChildCount : Nat := n.children.countP isNamed

/-- An index is good for a child if there are more children than that. -/
def checkIndex (index : Nat) : Except Fault Unit :=
  if n.childCount ≤ index then .error (.indexOutOfRange index n.childCount) else .ok ()

/-- The child of that index. -/
def child (index : Nat) : Except Fault Node := do
  n.checkIndex index
  return n.children[index]?.getD (null n.tree)

/-- The field that the child of that index fills. -/
def fieldNameForChild (index : Nat) : Except Fault (Option String) := do
  n.checkIndex index
  return n.children[index]?.bind fun c => c.label?.bind (·.childField)

/-- The child that fills a field; which one that is, the engine knows. -/
def childByFieldName (name : String) (engine : String → Option Nat) :
    Except Fault (Option Node) :=
  if name.isEmpty then .error (.badArgument .emptyFieldName)
  else if n.isNull then .ok none
  else .ok ((engine name).bind n.tree.locate? |>.map n.atPlace)

def parent? : Option Node := (n.place.bind (·.parent?)).map n.atPlace

def nextSibling? : Option Node := (n.place.bind (·.nextSiblings.head?)).map n.atPlace

def prevSibling? : Option Node := (n.place.bind (·.prevSiblings.head?)).map n.atPlace

def nextNamedSibling? : Option Node :=
  (n.place.bind fun l => l.nextSiblings.find? (·.label.isNamed)).map n.atPlace

def prevNamedSibling? : Option Node :=
  (n.place.bind fun l => l.prevSiblings.find? (·.label.isNamed)).map n.atPlace

/-! ### Places in the text -/

/-- The offset in the engine's unit, if it lies in the node. -/
def checkOffset (offset : Nat) : Except Fault Nat :=
  let native := n.encoding.toNative offset
  let start := (n.label?.map (·.startByte)).getD 0
  let stop := (n.label?.map (·.endByte)).getD 0
  if native < start ∨ stop < native then
    .error (.offsetOutOfRange offset n.startByte n.endByte)
  else .ok native

/-- What the engine finds for a native question; the null node is never asked about. -/
def ask (index : Option Nat) : Node := if n.isNull then null n.tree else ofIndex n.tree index

/-- The first child that reaches beyond an offset. -/
def firstChildForByte (offset : Nat) (engine : Nat → Option Nat) : Except Fault Node := do
  let native ← n.checkOffset offset
  return n.ask (engine native)

/-- The smallest node below this one that spans a range. -/
def descendantForByteRange (start stop : Nat) (engine : Nat → Nat → Option Nat) :
    Except Fault Node :=
  if stop < start then .error (.badArgument (.reversedRange start stop))
  else .ok (n.ask (engine (n.encoding.toNative start) (n.encoding.toNative stop)))

/-! ### Identity -/

/-- Two nodes are the same if they are the same place of the same tree. -/
def same (m : Node) : Bool :=
  n.tree.id == m.tree.id && n.place.map (·.path) == m.place.map (·.path)

/-- Nodes are hashed by their place alone, so the null nodes of all trees share a hash. -/
def sameHash (m : Node) : Bool := n.same m || (n.isNull && m.isNull)

/-! ### Descriptions -/

/-- The node in one line.  What would tell the node from others of its kind is left as `#`. -/
def describe : String :=
  match n.label? with
  | none => s!"Node(null, tree: {n.tree.id})"
  | some l => s!"Node(id: #, tree: {n.tree.id}, type: {l.kind}, range: {n.range.render})"

end Node

end SyntaxView
