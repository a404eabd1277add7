import SyntaxView.Session.Cursors
import SyntaxView.Proofs.Preorder

/-!
# Walks of a cursor

A cursor that was started at a node may be sent anywhere below it by moves that succeed or fail.
`WalksBelow` is what every move keeps: the cursor has its tree and its origin, and the tree around
the place it has come to is the subtree of its origin.  Wherever it is, a traversal from there
gives what is left of the recursive pre-order of that subtree and takes it back to its origin
(`preorder_eq`, and for the moves of a caller `preorder_follow`).
-/

namespace SyntaxView

/-! ### The pre-order of a node -/

namespace Node

/-- A node and everything below it, each node before its children; nothing for the null node. -/
def preorder (n : Node) : List Node :=
  match n.place with
  | none => []
  | some l => l.preorder.map n.atPlace

/-- **The recursion**: a node comes first, then each of its children with what is below it. -/
theorem preorder_eq_cons (n : Node) (h : n.isNull = false) :
    n.preorder = n :: n.children.flatMap preorder := by
  obtain ⟨t, _ | l⟩ := n
  · exact absurd h (by simp [isNull])
  · show l.preorder.map _ = _
    rw [l.preorder_eq_cons, List.map_cons, List.map_flatMap]
    show _ = _ :: (l.children.map _).flatMap preorder
    rw [List.flatMap_map]
    rfl

/-- The nodes of a pre-order are different nodes. -/
theorem pairwise_preorder (n : Node) : n.preorder.Pairwise fun a b => a.same b = false := by
  obtain ⟨t, _ | l⟩ := n
  · exact List.Pairwise.nil
  · show (l.preorder.map _).Pairwise _
    rw [List.pairwise_map]
    refine (List.pairwise_map.mp l.nodup_paths_preorder).imp ?_
    intro a b hab
    simp [same, atPlace, hab]

end Node

/-! ### What a move keeps -/

namespace Cursor

/-- The cursor walks below the place `origin` of a tree. -/
structure WalksBelow (c : Cursor) (t : Tree) (origin : Location) : Prop where
  tree_eq : c.tree = t
  origin_eq : c.origin = origin
  whole_eq : c.here.whole = origin.focus

/-- The cursor after a number of moves, whether they succeed or not. -/
def follow (c : Cursor) (moves : List Move) : Cursor := moves.foldl (fun c m => (c.go m).1) c

theorem walksBelow_start (t : Tree) (origin : Location) : (start t origin).WalksBelow t origin :=
  ⟨rfl, rfl, rfl⟩

section

variable {c : Cursor} {t : Tree} {origin : Location}

theorem WalksBelow.move (h : c.WalksBelow t origin) {step : Location → Option Location}
    (hstep : ∀ l m, step l = some m → m.whole = l.whole) :
    (c.move step).1.WalksBelow t origin := by
  rw [Cursor.move]
  split
  · rename_i l hl
    exact ⟨h.tree_eq, h.origin_eq, (hstep _ _ hl).trans h.whole_eq⟩
  · exact h

/-- **The step**: one move, successful or not. -/
theorem WalksBelow.go (h : c.WalksBelow t origin) (m : Move) :
    (c.go m).1.WalksBelow t origin := by
  cases m with
  | firstChild => exact h.move fun _ _ => Location.whole_firstChild?
  | nextSibling => exact h.move fun _ _ => Location.whole_nextSibling?
  | parent => exact h.move fun _ _ => Location.whole_parent?

/-- **The run**: any number of moves. -/
theorem WalksBelow.follow (h : c.WalksBelow t origin) (moves : List Move) :
    (c.follow moves).WalksBelow t origin := by
  induction moves generalizing c with
  | nil => exact h
  | cons m moves ih => exact ih (h.go m)

/-- At depth zero a cursor is where it was started. -/
theorem WalksBelow.eq_start (h : c.WalksBelow t origin) (hd : c.depth = 0) :
    c = start t origin := by
  have hroot := Location.eq_root_of_depth_eq_zero hd
  rw [h.whole_eq] at hroot
  obtain ⟨tree, place, here⟩ := c
  rw [start, ← h.tree_eq, ← h.origin_eq]
  exact congrArg (Cursor.mk tree place) (hroot.trans (by rw [← h.origin_eq]))

/-! ### Traversals -/

/-- A location of the subtree of `origin` as a node of the tree. -/
def nodeAt (t : Tree) (origin l : Location) : Node := ⟨t, some (origin.within l)⟩

theorem WalksBelow.node_eq (h : c.WalksBelow t origin) : c.node = nodeAt t origin c.here := by
  rw [node, h.tree_eq, h.origin_eq, nodeAt]

/-- A traversal gives what remains of the walk and ends where the walk was started. -/
theorem WalksBelow.preorder_eq (h : c.WalksBelow t origin) :
    c.preorder = (c.here.remaining.map (nodeAt t origin), start t origin) := by
  rw [preorder, Location.traverse_eq]
  show (List.map _ c.here.remaining, Cursor.mk c.tree c.origin (.root c.here.whole)) = _
  rw [h.whole_eq, h.tree_eq, h.origin_eq]
  rfl

/-- The pre-order of the node a walk was started at, seen from the walk. -/
theorem preorder_origin (t : Tree) (origin : Location) :
    (⟨t, some origin⟩ : Node).preorder
      = (Location.root origin.focus).preorder.map (nodeAt t origin) := by
  show (origin.within (.root origin.focus)).preorder.map _ = _
  rw [Location.preorder_within, List.map_map]
  rfl

/-- What is left of a walk is an end piece of the pre-order of the node it was started at. -/
theorem WalksBelow.exists_preorder_eq_append (h : c.WalksBelow t origin) :
    ∃ earlier, (⟨t, some origin⟩ : Node).preorder
      = earlier ++ c.here.remaining.map (nodeAt t origin) := by
  obtain ⟨earlier, he⟩ := Location.exists_preorder_eq_append c.here
  refine ⟨earlier.map (nodeAt t origin), ?_⟩
  rw [preorder_origin, ← h.whole_eq, he, List.map_append]

end

theorem ofNode_eq_ok {n : Node} {c : Cursor} (h : ofNode n = .ok c) :
    ∃ l, n = ⟨n.tree, some l⟩ ∧ c = start n.tree l := by
  obtain ⟨t, _ | l⟩ := n
  · simp [ofNode] at h
  · exact ⟨l, rfl, (Except.ok.inj h).symm⟩

/-- **A traversal visits what is left of the pre-order.**  Wherever the moves of a caller have
taken a cursor that was started at the node `n`, the pre-order of `n` comes to the node the cursor
is on (and comes to each node once); a traversal from there gives this node and all that follow
it, in order, and takes the cursor back to `n`, at depth zero.  From depth zero it gives the whole
pre-order. -/
theorem preorder_follow {n : Node} {begun : Cursor} (h : ofNode n = .ok begun)
    (moves : List Move) :
    let c := begun.follow moves
    ∃ earlier later, n.preorder = earlier ++ c.node :: later ∧
      c.preorder = (c.node :: later, begun) ∧
      n.preorder.Pairwise (fun a b => a.same b = false) ∧
      begun.node = n ∧ begun.depth = 0 ∧
      (c.depth = 0 → c.preorder.1 = n.preorder) := by
  obtain ⟨l, hn, rfl⟩ := ofNode_eq_ok h
  intro c
  have hc : c.WalksBelow n.tree l := (walksBelow_start n.tree l).follow moves
  -- what remains starts with the present node
  obtain ⟨later, hlater⟩ : ∃ later, c.here.remaining = c.here :: later :=
    ⟨_, List.eq_cons_of_mem_head? c.here.head?_remaining⟩
  obtain ⟨earlier, hearlier⟩ := hc.exists_preorder_eq_append
  rw [hlater, List.map_cons, ← hc.node_eq, ← hn] at hearlier
  have hwalk := hc.preorder_eq
  rw [hlater, List.map_cons, ← hc.node_eq] at hwalk
  refine ⟨earlier, later.map (nodeAt n.tree l), hearlier, hwalk, n.pairwise_preorder, hn.symm, rfl,
    ?_⟩
  intro hd
  have hroot := congrArg here (hc.eq_start hd)
  rw [hc.preorder_eq, hroot, hn, preorder_origin]
  exact congrArg _ (Location.remaining_root l.focus)

end Cursor

/-! ### A small tree

The tree of `a+b;`: a statement, below it a sum of two names and a semicolon.
-/

namespace Sample

/-- A node on the first line of a text. -/
def label (kind : String) (isNamed : Bool) (start stop : Nat) (field : Option String) : Label where
  kind := kind
  isNamed := isNamed
  isExtra := false
  isMissing := false
  isError := false
  hasError := false
  startByte := start
  endByte := stop
  startPoint := ⟨0, start⟩
  endPoint := ⟨0, stop⟩
  parseState := 0
  nextParseState := 0
  walkField := field
  childField := field

def sum : Syntax :=
  .node (label "sum" true 0 3 none)
    [.node (label "name" true 0 1 (some "left")) [],
     .node (label "+" false 1 2 none) [],
     .node (label "name" true 2 3 (some "right")) []]

def semicolon : Syntax := .node (label ";" false 3 4 none) []

def statement : Syntax := .node (label "statement" true 0 4 none) [sum, semicolon]

def tree : Tree := ⟨0, statement, .utf8 "a+b;", .javascript⟩

/-- The place of the sum, before the semicolon. -/
def sumPlace : Location := ⟨sum, [⟨statement.label, [], [semicolon]⟩]⟩

end Sample

/-- A walk over the sum alone, taken up again at the plus sign after a move that fails. -/
theorem Cursor.preorder_follow_sum :
    let n : Node := ⟨Sample.tree, some Sample.sumPlace⟩
    let begun := Cursor.start Sample.tree Sample.sumPlace
    let c := begun.follow [.parent, .firstChild, .nextSibling]
    Cursor.ofNode n = .ok begun ∧
    ∃ earlier later, n.preorder = earlier ++ c.node :: later ∧
      c.preorder = (c.node :: later, begun) ∧
      n.preorder.Pairwise (fun a b => a.same b = false) ∧
      begun.node = n ∧ begun.depth = 0 ∧
      (c.depth = 0 → c.preorder.1 = n.preorder) :=
  ⟨rfl, Cursor.preorder_follow rfl [.parent, .firstChild, .nextSibling]⟩

end SyntaxView
