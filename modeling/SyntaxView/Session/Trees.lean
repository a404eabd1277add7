import SyntaxView.Session.Basic

/-!
# Commands on trees

What the engine makes of an edit is given by its native form, so a command carries a list of edits
with their results, and the one that is asked for is looked up.
-/

namespace SyntaxView

inductive TreeCommand where
  | info (tree : Handle)
  | edit (tree : Handle) (edit : Edit) (newText : String) (replies : List (Edit × Syntax))
  | changedRanges (tree other : Handle) (reply : List Range)
  | delete (tree : Handle)
  deriving Repr

namespace Session

variable (s : Session)

def performTree : TreeCommand → Outcome
  | .info h => s.withBound s.trees h fun t => (.tree t, s)
  | .edit h edit newText replies =>
    s.withBound s.trees h fun t =>
      let engine (native : Edit) : Syntax := (replies.lookup native).getD t.shape
      let t' := t.edit edit newText engine
      let s := s.forgetTree t.id
      (.nodes (Node.root t').descendants, { s with trees := s.trees.bind h t' })
  | .changedRanges h other reply =>
    s.withBound s.trees h fun t =>
      s.withBound s.trees other fun _ => (.ranges (t.changedRanges reply), s)
  | .delete h => s.withBound s.trees h fun _ => (.done, s.dropTree h)

end Session

end SyntaxView
