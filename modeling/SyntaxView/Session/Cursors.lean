import SyntaxView.Session.Basic

/-!
# Commands on cursors
-/

namespace SyntaxView

/-- A move of a cursor. -/
inductive Move where
  | firstChild
  | nextSibling
  | parent
  deriving Repr, DecidableEq

namespace Cursor

/-- The cursor after a move, and whether it succeeded. -/
def go (c : Cursor) : Move → Cursor × Bool
  | .firstChild => c.gotoFirstChild
  | .nextSibling => c.gotoNextSibling
  | .parent => c.gotoParent

end Cursor

inductive CursorCommand where
  | walkTree (tree : Handle) (h : Handle)
  | walkNode (node : Handle) (h : Handle)
  | go (cursor : Handle) (move : Move)
  | info (cursor : Handle)
  | node (cursor : Handle) (h : Option Handle)
  | reset (cursor node : Handle)
  | preorder (cursor : Handle)
  | outline (cursor : Handle)
  | write (cursor : Handle) (before : String)
  deriving Repr

namespace Session

variable (s : Session)

/-- Go on with the outline of a cursor, which ends back at its origin. -/
def withOutline (cursor : Handle) (next : String → Cursor → Answer) : Outcome :=
  s.withBound s.cursors cursor fun c =>
    match c.outline? with
    | none => s.refuse (.underWay cursor)
    | some (text, c) => (next text c, s.bindCursor cursor c)

def performCursor : CursorCommand → Outcome
  | .walkTree tree h =>
    s.withBound s.trees tree fun t =>
      let c := Cursor.ofTree t
      (.node (some c.node), s.bindCursor h c)
  | .walkNode node h =>
    s.withBound s.nodes node fun n =>
      s.withResult (Cursor.ofNode n) fun c => (.node (some c.node), s.bindCursor h c)
  | .go cursor move =>
    s.withBound s.cursors cursor fun c =>
      let (c, moved) := c.go move
      (.flag moved, s.bindCursor cursor c)
  | .info cursor => s.withBound s.cursors cursor fun c => (.cursor c, s)
  | .node cursor h =>
    s.withBound s.cursors cursor fun c => (.node (some c.node), s.bindNode h (some c.node))
  | .reset cursor node =>
    s.withBound s.cursors cursor fun c =>
      s.withBound s.nodes node fun n =>
        s.withResult (c.reset n) fun c => (.done, s.bindCursor cursor c)
  | .preorder cursor =>
    s.withBound s.cursors cursor fun c =>
      let (seen, c) := c.preorder
      (.walked seen c, s.bindCursor cursor c)
  | .outline cursor => s.withOutline cursor .outlined
  | .write cursor before => s.withOutline cursor fun text _ => .written (before ++ text)

end Session

end SyntaxView
