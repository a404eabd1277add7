import SyntaxView.Session.Basic

/-!
# Commands on nodes

Commands that ask about a node or go from a node to another of its tree.  Where the engine is asked
about a place in the text, a command carries a list of native questions with their answers, and the
one that is asked is looked up.
-/

namespace SyntaxView

/-- A way from a node to a neighbour. -/
inductive Way where
  | parent
  | nextSibling
  | prevSibling
  | nextNamedSibling
  | prevNamedSibling
  deriving Repr, DecidableEq

namespace Node

/-- The neighbour of a node that way, if there is one. -/
def go (n : Node) : Way → Option Node
  | .parent => n.parent?
  | .nextSibling => n.nextSibling?
  | .prevSibling => n.prevSibling?
  | .nextNamedSibling => n.nextNamedSibling?
  | .prevNamedSibling => n.prevNamedSibling?

end Node

inductive NodeCommand where
  | root (tree : Handle) (h : Option Handle)
  | null (tree : Handle) (h : Option Handle)
  | info (node : Handle)
  | expression (node : Handle) (reply : String)
  | child (node : Handle) (index : Nat) (h : Option Handle)
  | children (node : Handle)
  | descendants (node : Handle)
  | childByFieldName (node : Handle) (name : String) (h : Option Handle) (reply : Option Nat)
  | fieldNameForChild (node : Handle) (index : Nat)
  | descendantForByteRange (node : Handle) (start stop : Nat) (h : Option Handle)
      (replies : List ((Nat × Nat) × Option Nat))
  | firstChildForByte (node : Handle) (offset : Nat) (h : Option Handle)
      (replies : List (Nat × Option Nat))
  | go (node : Handle) (way : Way) (h : Option Handle)
  | same (a b : Handle)
  deriving Repr

namespace Session

variable (s : Session)

/-- The node as the answer, under a name if one is wanted. -/
def answerNode (h : Option Handle) (n : Option Node) : Outcome := (.node n, s.bindNode h n)

def performNode : NodeCommand → Outcome
  | .root tree h => s.withBound s.trees tree fun t => s.answerNode h (some (.root t))
  | .null tree h => s.withBound s.trees tree fun t => s.answerNode h (some (.null t))
  | .info node => s.withBound s.nodes node fun n => (.nodeInfo n, s)
  | .expression node reply =>
    s.withBound s.nodes node fun n => (.text (some (n.expression reply)), s)
  | .child node index h =>
    s.withBound s.nodes node fun n =>
      s.withResult (n.child index) fun c => s.answerNode h (some c)
  | .children node => s.withBound s.nodes node fun n => (.nodes n.children, s)
  | .descendants node => s.withBound s.nodes node fun n => (.nodes n.descendants, s)
  | .childByFieldName node name h reply =>
    s.withBound s.nodes node fun n =>
      s.withResult (n.childByFieldName name fun _ => reply) fun c => s.answerNode h c
  | .fieldNameForChild node index =>
    s.withBound s.nodes node fun n =>
      s.withResult (n.fieldNameForChild index) fun name => (.text name, s)
  | .descendantForByteRange node start stop h replies =>
    s.withBound s.nodes node fun n =>
      let engine (start stop : Nat) : Option Nat := (replies.lookup (start, stop)).join
      s.withResult (n.descendantForByteRange start stop engine) fun d => s.answerNode h (some d)
  | .firstChildForByte node offset h replies =>
    s.withBound s.nodes node fun n =>
      let engine (native : Nat) : Option Nat := (replies.lookup native).join
      s.withResult (n.firstChildForByte offset engine) fun c => s.answerNode h (some c)
  | .go node way h => s.withBound s.nodes node fun n => s.answerNode h (n.go way)
  | .same a b =>
    s.withBound s.nodes a fun m =>
      s.withBound s.nodes b fun n => (.identity (m.same n) (m.sameHash n), s)

end Session

end SyntaxView
