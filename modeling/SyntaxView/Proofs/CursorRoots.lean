import SyntaxView.Proofs.Places

/-!
# Cursors and their roots

A cursor can be moved and it can be reset, which gives it a new root.  Its root is the node it was
started at or that of the last reset that was not refused (`Node.rootAfter`), and wherever it is
sent it stays in the subtree of its root (`Cursor.steps_below`).

`Cursor.RootedAt` is what a step keeps, be it carried out or refused: the root of the cursor is this
node, and the tree around the place it has come to is the subtree of its root.  The distance from
the root is counted by the nodes themselves, from parent to parent (`Node.ancestor?`), and not by
the cursor.  The children of a node are found by the moves that a caller has for it: to the first
child, and on to the next sibling for as long as there is one (`Cursor.childWalk`).
-/

namespace SyntaxView

/-! ### Places below one parent -/

namespace Location

/-- From each child the way up leads back to the node. -/
theorem parent?_of_mem_children {l m : Location} (h : m ∈ l.children) : m.parent? = some l := by
  obtain ⟨⟨label, ts⟩, trail⟩ := l
  exact parent?_of_mem_rightward h

theorem rightward_append_trail (label : Label) (above outer : List Frame)
    (before after : List Syntax) :
    rightward label (above ++ outer) before after
      = (rightward label above before after).map fun l => ⟨l.focus, l.trail ++ outer⟩ := by
  induction after generalizing before with
  | nil => rfl
  | cons t ts ih => rw [rightward, rightward, List.map_cons, ih, List.cons_append]

/-- The children of a node are the same inside the tree around it. -/
theorem children_within (outer inner : Location) :
    (outer.within inner).children = inner.children.map outer.within :=
  rightward_append_trail _ _ _ _ _

theorem children_of_firstChild?_eq_some {l m : Location} (h : l.firstChild? = some m) :
    l.children = m :: m.nextSiblings := by
  obtain ⟨label, t, ts, hl, rfl⟩ := firstChild?_eq_some h
  rw [hl]
  rfl

theorem children_of_firstChild?_eq_none {l : Location} (h : l.firstChild? = none) :
    l.children = [] := by
  obtain ⟨⟨label, _ | ⟨t, ts⟩⟩, trail⟩ := l
  · rfl
  · simp [firstChild?] at h

theorem nextSiblings_of_nextSibling?_eq_some {l m : Location} (h : l.nextSibling? = some m) :
    l.nextSiblings = m :: m.nextSiblings := by
  obtain ⟨label, before, u, us, above, hl, rfl⟩ := nextSibling?_eq_some h
  rw [hl]
  rfl

theorem nextSiblings_of_nextSibling?_eq_none {l : Location} (h : l.nextSibling? = none) :
    l.nextSiblings = [] := by
  obtain ⟨t, _ | ⟨⟨label, before, _ | ⟨u, us⟩⟩, above⟩⟩ := l
  · rfl
  · rfl
  · simp [nextSibling?] at h

end Location

/-! ### Ancestors -/

namespace Node

/-- The node that many steps up. -/
def ancestor? (n : Node) : Nat → Option Node
  | 0 => some n
  | k + 1 => n.parent?.bind (·.ancestor? k)

theorem ancestor?_succ {t : Tree} {l p : Location} (h : l.parent? = some p) (k : Nat) :
    (⟨t, some l⟩ : Node).ancestor? (k + 1) = (⟨t, some p⟩ : Node).ancestor? k := by
  rw [ancestor?, parent?, Option.bind_some, h]
  rfl

/-- Each step up is one level. -/
theorem depth_of_ancestor? {t t' : Tree} {l m : Location} {k : Nat}
    (h : (⟨t, some l⟩ : Node).ancestor? k = some ⟨t', some m⟩) : m.depth + k = l.depth := by
  induction k generalizing l with
  | zero =>
    cases h
    rfl
  | succ k ih =>
    cases hp : l.parent? with
    | none =>
      rw [ancestor?, parent?, Option.bind_some, hp] at h
      cases h
    | some p =>
      rw [ancestor?_succ hp] at h
      have hlevel := ih h
      have hparent := Location.depth_parent? hp
      omega

/-- Up from a place inside a subtree, as many steps as it is below the root of the subtree. -/
theorem ancestor?_within (t : Tree) (outer inner : Location) :
    (⟨t, some (outer.within inner)⟩ : Node).ancestor? inner.depth
      = some ⟨t, some ⟨inner.whole, outer.trail⟩⟩ := by
  obtain ⟨focus, trail⟩ := inner
  induction trail generalizing focus with
  | nil => rfl
  | cons f above ih =>
    have hparent : (outer.within ⟨focus, f :: above⟩).parent?
        = some (outer.within ⟨f.plug focus, above⟩) := rfl
    rw [show Location.depth ⟨focus, f :: above⟩ = above.length + 1 from rfl,
      ancestor?_succ hparent]
    exact ih (f.plug focus)

end Node

/-! ### Steps of a cursor -/

/-- What can be done with a cursor: a move, or a reset to a node, which may be one of another tree
or a null node. -/
inductive CursorStep where
  | go (move : Move)
  | reset (node : Node)
  deriving Repr

namespace Cursor

/-- The cursor after a step, and whether the step was carried out.  A cursor whose step is refused
is the same cursor. -/
def take (c : Cursor) : CursorStep → Cursor × Bool
  | .go move => c.go move
  | .reset n =>
    match c.reset n with
    | .ok after => (after, true)
    | .error _ => (c, false)

/-- The cursor after a number of steps, carried out or refused. -/
def afterSteps (c : Cursor) (steps : List CursorStep) : Cursor :=
  steps.foldl (fun c step => (c.take step).1) c

end Cursor

namespace Node

/-- The root after a step, given the root before: a reset to a node of the same tree, if it is not
null, makes the place of this node the root. -/
def reroot (root : Node) : CursorStep → Node
  | .go _ => root
  | .reset n =>
    match n.place with
    | some l => if n.tree.id = root.tree.id then root.atPlace l else root
    | none => root

/-- The root after a number of steps: the node of the last reset that was not refused. -/
def rootAfter (root : Node) (steps : List CursorStep) : Node := steps.foldl reroot root

theorem rootAfter_concat (root : Node) (steps : List CursorStep) (step : CursorStep) :
    root.rootAfter (steps ++ [step]) = (root.rootAfter steps).reroot step := by
  rw [rootAfter, List.foldl_append]
  rfl

theorem tree_reroot (root : Node) (step : CursorStep) : (root.reroot step).tree = root.tree := by
  unfold reroot
  split
  · rfl
  · split
    · split <;> rfl
    · rfl

theorem tree_rootAfter (root : Node) (steps : List CursorStep) :
    (root.rootAfter steps).tree = root.tree := by
  induction steps generalizing root with
  | nil => rfl
  | cons step steps ih => exact (ih (root.reroot step)).trans (root.tree_reroot step)

end Node

namespace Cursor

variable {c : Cursor} {root : Node}

/-- The cursor walks below its root, which is this node. -/
structure RootedAt (c : Cursor) (root : Node) : Prop where
  root_eq : root = ⟨c.tree, some c.origin⟩
  whole_eq : c.here.whole = c.origin.focus

theorem rootedAt_ofNode {n : Node} (h : ofNode n = .ok c) : c.RootedAt n := by
  obtain ⟨l, hn, rfl⟩ := ofNode_eq_ok h
  exact ⟨hn, rfl⟩

theorem RootedAt.walksBelow (h : c.RootedAt root) : c.WalksBelow c.tree c.origin :=
  ⟨rfl, rfl, h.whole_eq⟩

/-- A reset is carried out for the nodes of the same tree that are not null, and refused for all
others. -/
theorem take_reset_cases (c : Cursor) (n : Node) :
    (∃ l, n.tree.id = c.tree.id ∧ n.place = some l ∧
        c.take (.reset n) = (start c.tree l, true)) ∨
      ¬ (n.tree.id = c.tree.id ∧ n.isNull = false) ∧ c.take (.reset n) = (c, false) := by
  obtain ⟨t, place⟩ := n
  by_cases hid : t.id = c.tree.id
  · cases place with
    | none =>
      refine .inr ⟨by simp [Node.isNull], ?_⟩
      simp only [take, reset, ne_eq, hid, not_true_eq_false, if_false]
    | some l =>
      refine .inl ⟨l, hid, rfl, ?_⟩
      simp only [take, reset, ne_eq, hid, not_true_eq_false, if_false]
  · refine .inr ⟨fun h => hid h.1, ?_⟩
    simp only [take, reset, ne_eq, hid, not_false_eq_true, if_true]

theorem take_reset_snd (c : Cursor) (n : Node) :
    (c.take (.reset n)).2 = true ↔ n.tree.id = c.tree.id ∧ n.isNull = false := by
  rcases c.take_reset_cases n with ⟨l, hid, hplace, hreset⟩ | ⟨hnot, hreset⟩
  · simp [hreset, hid, Node.isNull, hplace]
  · simp [hreset, hnot]

/-- **The step**: a cursor is rooted where its steps so far say. -/
theorem RootedAt.take (h : c.RootedAt root) (step : CursorStep) :
    (c.take step).1.RootedAt (root.reroot step) := by
  cases step with
  | go move =>
    have hgone := h.walksBelow.go move
    refine ⟨?_, hgone.whole_eq.trans (congrArg Location.focus hgone.origin_eq.symm)⟩
    show root = ⟨(c.go move).1.tree, some (c.go move).1.origin⟩
    rw [hgone.tree_eq, hgone.origin_eq]
    exact h.root_eq
  | reset n =>
    have htree : root.tree = c.tree := by rw [h.root_eq]
    rcases c.take_reset_cases n with ⟨l, hid, hplace, hreset⟩ | ⟨hnot, hreset⟩
    · have hroot : root.reroot (.reset n) = ⟨c.tree, some l⟩ := by
        simp only [Node.reroot, hplace, htree, hid, if_true, Node.atPlace]
      rw [hreset, hroot]
      exact ⟨rfl, rfl⟩
    · have hroot : root.reroot (.reset n) = root := by
        obtain ⟨t, place⟩ := n
        cases place with
        | none => rfl
        | some l => exact if_neg fun hid => hnot ⟨htree ▸ hid, rfl⟩
      rw [hreset, hroot]
      exact h

/-- A node of the same tree that is not null is the root after a reset to it, and the cursor is on
it. -/
theorem RootedAt.take_reset (h : c.RootedAt root) {n : Node} (htree : n.tree = root.tree)
    (hnull : n.isNull = false) :
    root.reroot (.reset n) = n ∧ (c.take (.reset n)).1.node = n ∧
      (c.take (.reset n)).1.depth = 0 := by
  have hroot : root.tree = c.tree := by rw [h.root_eq]
  obtain ⟨t, _ | l⟩ := n
  · cases hnull
  · obtain rfl : t = c.tree := htree.trans hroot
    rcases c.take_reset_cases ⟨c.tree, some l⟩ with ⟨l', -, hplace, hreset⟩ | ⟨hnot, -⟩
    · obtain rfl := Option.some.inj hplace
      rw [hreset]
      refine ⟨?_, rfl, rfl⟩
      simp only [Node.reroot, hroot, if_true, Node.atPlace]
    · exact absurd ⟨rfl, rfl⟩ hnot

/-- **The run**: any number of steps. -/
theorem RootedAt.afterSteps (h : c.RootedAt root) (steps : List CursorStep) :
    (c.afterSteps steps).RootedAt (root.rootAfter steps) := by
  induction steps generalizing c root with
  | nil => exact h
  | cons step steps ih => exact ih (h.take step)

/-! ### Where a cursor is -/

/-- The node is in the subtree of the root. -/
theorem RootedAt.node_mem (h : c.RootedAt root) : c.node ∈ root.preorder := by
  obtain ⟨earlier, hpreorder⟩ := h.walksBelow.exists_preorder_eq_append
  rw [h.root_eq, hpreorder, h.walksBelow.node_eq]
  refine List.mem_append_right _ (List.mem_map_of_mem ?_)
  exact List.mem_of_head? c.here.head?_remaining

/-- The depth is the distance from the root. -/
theorem RootedAt.ancestor?_eq_root_iff (h : c.RootedAt root) (k : Nat) :
    c.node.ancestor? k = some root ↔ k = c.depth := by
  have hup : c.node.ancestor? c.depth = some root := by
    have hwithin := Node.ancestor?_within c.tree c.origin c.here
    rw [h.whole_eq] at hwithin
    rw [h.root_eq]
    exact hwithin
  constructor
  · intro hk
    rw [h.root_eq] at hk hup
    have hlevel := Node.depth_of_ancestor? hk
    have hlevel' := Node.depth_of_ancestor? hup
    omega
  · rintro rfl
    exact hup

theorem RootedAt.node_eq_root_iff (h : c.RootedAt root) : c.node = root ↔ c.depth = 0 := by
  have hzero := h.ancestor?_eq_root_iff 0
  rw [Node.ancestor?, Option.some.injEq] at hzero
  rw [hzero, eq_comm]

/-! ### Moves -/

/-- A move either leads to a place or leaves the cursor as it was. -/
theorem move_cases (c : Cursor) (step : Location → Option Location) :
    (∃ l, step c.here = some l ∧ c.move step = ({ c with here := l }, true)) ∨
      step c.here = none ∧ c.move step = (c, false) := by
  unfold move
  cases hstep : step c.here with
  | none => exact .inr ⟨rfl, rfl⟩
  | some l => exact .inl ⟨l, rfl, rfl⟩

theorem take_of_refused {step : CursorStep} (h : (c.take step).2 = false) :
    (c.take step).1 = c := by
  have hmove : ∀ way, (c.move way).2 = false → (c.move way).1 = c := by
    intro way hfalse
    rcases c.move_cases way with ⟨l, -, hmoved⟩ | ⟨-, hmoved⟩
    · rw [hmoved] at hfalse
      cases hfalse
    · rw [hmoved]
  cases step with
  | go move =>
    cases move with
    | firstChild => exact hmove _ h
    | nextSibling => exact hmove _ h
    | parent => exact hmove _ h
  | reset n =>
    rcases c.take_reset_cases n with ⟨l, -, -, hreset⟩ | ⟨-, hreset⟩
    · rw [hreset] at h
      cases h
    · rw [hreset]

/-- A refused step leaves the root where it was. -/
theorem RootedAt.reroot_of_refused (h : c.RootedAt root) {step : CursorStep}
    (hrefused : (c.take step).2 = false) : root.reroot step = root := by
  have hafter := h.take step
  rw [take_of_refused hrefused] at hafter
  rw [hafter.root_eq, h.root_eq]

theorem depth_gotoNextSibling (c : Cursor) : c.gotoNextSibling.1.depth = c.depth := by
  unfold gotoNextSibling
  rcases c.move_cases Location.nextSibling? with ⟨l, hl, hmoved⟩ | ⟨-, hmoved⟩
  · rw [hmoved]
    exact Location.depth_nextSibling? hl
  · rw [hmoved]

/-- At its root a cursor does not go to the side. -/
theorem gotoNextSibling_of_depth_eq_zero (h : c.depth = 0) : c.gotoNextSibling = (c, false) := by
  obtain ⟨t, origin, ⟨focus, trail⟩⟩ := c
  obtain rfl : trail = [] := List.eq_nil_of_length_eq_zero h
  rfl

/-- A cursor goes up everywhere but at its root. -/
theorem gotoParent_snd (c : Cursor) : c.gotoParent.2 = true ↔ c.depth ≠ 0 := by
  obtain ⟨t, origin, ⟨focus, _ | ⟨f, above⟩⟩⟩ := c
  · simp [gotoParent, move, Location.parent?, depth, Location.depth]
  · simp [gotoParent, move, Location.parent?, depth, Location.depth]

/-! ### Walks along the children -/

/-- The cursor and where it comes to by going to the next sibling for as long as this succeeds. -/
def siblingWalk (c : Cursor) : List Cursor :=
  match _h : c.gotoNextSibling with
  | (after, true) => c :: siblingWalk after
  | (_, false) => [c]
termination_by c.here.ahead
decreasing_by
  rcases c.move_cases Location.nextSibling? with ⟨l, hl, hmoved⟩ | ⟨-, hmoved⟩
  · obtain rfl : { c with here := l } = after := (Prod.mk.inj (hmoved.symm.trans _h)).1
    have hahead := Location.ahead_nextSibling? hl
    have hle := Location.beyond_le_ahead c.here
    show l.ahead < c.here.ahead
    omega
  · cases hmoved.symm.trans _h

/-- Where a cursor comes to by going to the first child, if there is one, and on from sibling to
sibling. -/
def childWalk (c : Cursor) : List Cursor :=
  match c.gotoFirstChild with
  | (after, true) => after.siblingWalk
  | (_, false) => []

theorem siblingWalk_eq (c : Cursor) :
    c.siblingWalk = (c.here :: c.here.nextSiblings).map fun l => { c with here := l } := by
  fun_induction siblingWalk c with
  | case1 c after h ih =>
    rcases c.move_cases Location.nextSibling? with ⟨l, hl, hmoved⟩ | ⟨-, hmoved⟩
    · obtain rfl : { c with here := l } = after := (Prod.mk.inj (hmoved.symm.trans h)).1
      rw [ih, Location.nextSiblings_of_nextSibling?_eq_some hl]
      rfl
    · cases hmoved.symm.trans h
  | case2 c after h =>
    rcases c.move_cases Location.nextSibling? with ⟨l, hl, hmoved⟩ | ⟨hnone, -⟩
    · cases hmoved.symm.trans h
    · rw [Location.nextSiblings_of_nextSibling?_eq_none hnone]
      rfl

theorem childWalk_eq (c : Cursor) :
    c.childWalk = c.here.children.map fun l => { c with here := l } := by
  unfold childWalk gotoFirstChild
  rcases c.move_cases Location.firstChild? with ⟨l, hl, hmoved⟩ | ⟨hnone, hmoved⟩
  · rw [hmoved, Location.children_of_firstChild?_eq_some hl]
    exact siblingWalk_eq _
  · rw [hmoved, Location.children_of_firstChild?_eq_none hnone]
    rfl

/-- **The walk along the children** comes to all of them, in order. -/
theorem map_node_childWalk (c : Cursor) : c.childWalk.map node = c.node.children := by
  rw [childWalk_eq, List.map_map]
  show _ = (c.origin.within c.here).children.map c.node.atPlace
  rw [Location.children_within, List.map_map]
  rfl

/-- From wherever the walk along the children has come to, the way up leads back. -/
theorem gotoParent_of_mem_childWalk {d : Cursor} (h : d ∈ c.childWalk) :
    d.gotoParent = (c, true) := by
  rw [childWalk_eq] at h
  obtain ⟨l, hl, rfl⟩ := List.mem_map.1 h
  have hparent := Location.parent?_of_mem_children hl
  show Cursor.move _ Location.parent? = _
  unfold move
  rw [show Cursor.here { c with here := l } = l from rfl, hparent]

/-! ### Cursors of a session -/

/-- In a session the cursor of a name takes the same steps: it is left alone by a step that is
refused. -/
theorem get?_performCursor {s : Session} {h : Handle} (hc : s.cursors.get? h = some c) :
    (∀ move, s.performCursor (.go h move)
      = (.flag (c.take (.go move)).2, s.bindCursor h (c.take (.go move)).1)) ∧
    (∀ k n, s.nodes.get? k = some n →
      (s.performCursor (.reset h k)).2.cursors.get? h = some (c.take (.reset n)).1) := by
  constructor
  · intro move
    simp only [Session.performCursor, Session.withBound, hc, take]
  · intro k n hn
    simp only [Session.performCursor, Session.withBound, hc, hn, take]
    cases c.reset n with
    | error fault => exact hc
    | ok after => exact Bindings.get?_bind_self _ _ _

/-- **A cursor stays below its root**, through any number of moves and resets, carried out or
refused.  `root` is the node it was started at or that of the last reset that was not refused.

* The cursor is on a node of the subtree of its root, and its depth is the distance from there.  At
  its root it knows of no field and does not go to the side; it goes up everywhere but there.
* A step that is refused leaves the cursor and its root as they were.  A reset is refused for nodes
  of other trees and for null nodes, and makes any other node the root.
* Going to the next sibling keeps the depth.  Going to the first child and on to the next sibling
  for as long as there is one comes to all children in order, and from each of them the way up leads
  back.
* A session does with the cursor of a name just this. -/
theorem steps_below {n : Node} {begun : Cursor} (h : ofNode n = .ok begun)
    (steps : List CursorStep) :
    let c := begun.afterSteps steps
    let root := n.rootAfter steps
    c.node ∈ root.preorder ∧ (∀ k, c.node.ancestor? k = some root ↔ k = c.depth) ∧
    (c.node = root → c.field? = none ∧ c.gotoNextSibling = (c, false)) ∧
    (c.gotoParent.2 = true ↔ c.node ≠ root) ∧
    (∀ step, (c.take step).2 = false →
      (c.take step).1 = c ∧ n.rootAfter (steps ++ [step]) = root) ∧
    (∀ m, (c.take (.reset m)).2 = true ↔ m.tree.id = n.tree.id ∧ m.isNull = false) ∧
    (∀ m, m.tree = n.tree → m.isNull = false → n.rootAfter (steps ++ [.reset m]) = m ∧
      (c.take (.reset m)).1.node = m ∧ (c.take (.reset m)).1.depth = 0) ∧
    c.gotoNextSibling.1.depth = c.depth ∧
    c.childWalk.map node = c.node.children ∧ (∀ d ∈ c.childWalk, d.gotoParent = (c, true)) ∧
    (∀ (s : Session) (name : Handle), s.cursors.get? name = some c →
      (∀ move, s.performCursor (.go name move)
        = (.flag (c.take (.go move)).2, s.bindCursor name (c.take (.go move)).1)) ∧
      (∀ k m, s.nodes.get? k = some m →
        (s.performCursor (.reset name k)).2.cursors.get? name
          = some (c.take (.reset m)).1)) := by
  intro c root
  have hc : c.RootedAt root := (rootedAt_ofNode h).afterSteps steps
  have htree : root.tree = n.tree := n.tree_rootAfter steps
  have hid : c.tree.id = n.tree.id := by rw [← htree, hc.root_eq]
  refine ⟨hc.node_mem, hc.ancestor?_eq_root_iff, ?_, ?_, ?_, ?_, ?_, c.depth_gotoNextSibling,
    c.map_node_childWalk, fun d hd => gotoParent_of_mem_childWalk hd,
    fun s name hname => get?_performCursor hname⟩
  · intro hroot
    have hdepth := hc.node_eq_root_iff.1 hroot
    exact ⟨if_pos hdepth, gotoNextSibling_of_depth_eq_zero hdepth⟩
  · rw [gotoParent_snd, ne_eq, ne_eq, hc.node_eq_root_iff]
  · intro step hrefused
    rw [Node.rootAfter_concat]
    exact ⟨take_of_refused hrefused, hc.reroot_of_refused hrefused⟩
  · intro m
    rw [take_reset_snd, hid]
  · intro m hm hnull
    rw [Node.rootAfter_concat]
    exact hc.take_reset (hm.trans htree.symm) hnull

/-- A cursor over the sum is sent to its plus sign and is then reset to the statement around it.
From there it goes back to the sum, and refuses the null node and a node of another tree. -/
theorem steps_below_statement :
    let n : Node := ⟨Sample.tree, some Sample.sumPlace⟩
    let begun := start Sample.tree Sample.sumPlace
    let other : Tree := { Sample.tree with id := 1 }
    let steps : List CursorStep :=
      [.go .parent, .go .firstChild, .go .nextSibling, .reset (.root Sample.tree),
        .go .firstChild, .reset (.null Sample.tree), .reset (.root other)]
    let c := begun.afterSteps steps
    ofNode n = .ok begun ∧ n.rootAfter steps = .root Sample.tree ∧ c.node = n ∧ c.depth = 1 ∧
    c.node ∈ (n.rootAfter steps).preorder ∧ c.node.ancestor? 1 = some (n.rootAfter steps) ∧
    (c.take (.reset (.root other))).1 = c := by
  intro n begun other steps c
  have hbegun : ofNode n = .ok begun := rfl
  obtain ⟨hbelow, hdistance, -, -, hrefused, -⟩ := steps_below hbegun steps
  refine ⟨hbegun, rfl, rfl, rfl, hbelow, (hdistance 1).2 rfl, ?_⟩
  exact (hrefused (.reset (.root other)) rfl).1

end Cursor

end SyntaxView
