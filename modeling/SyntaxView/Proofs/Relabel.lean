import SyntaxView.Proofs.Outline

/-!
# Other labels, the same shape

Where a node is, where a move leads to and how far down a walk has come depend on the shape of a
tree alone.  So putting other labels on all nodes (`Syntax.relabel`) changes none of it: every move
of a location, every move of a cursor and every step of an outline leads from the relabelled place
to the relabelled place.

What is read off a node does depend on its label.  `Outline.lines_relabel` therefore asks that the
two walks write the same line at corresponding places, and gives the same text for both.
-/

namespace SyntaxView

variable (f : Label → Label)

/-! ### Trees and locations -/

namespace Syntax

mutual

/-- The same tree with other labels. -/
def relabel : Syntax → Syntax
  | .node label ts => .node (f label) (relabelAll ts)

def relabelAll : List Syntax → List Syntax
  | [] => []
  | t :: ts => relabel t :: relabelAll ts

end

theorem relabelAll_eq_map (ts : List Syntax) : relabelAll f ts = ts.map (relabel f) := by
  induction ts with
  | nil => rfl
  | cons t ts ih => rw [relabelAll, List.map_cons, ih]

@[simp]
theorem relabel_node (label : Label) (ts : List Syntax) :
    (node label ts).relabel f = node (f label) (ts.map (relabel f)) := by
  rw [relabel, relabelAll_eq_map]

@[simp]
theorem label_relabel (t : Syntax) : (t.relabel f).label = f t.label := by
  cases t
  rw [relabel_node, label, label]

end Syntax

/-- The same step down with other labels. -/
def Frame.relabel (fr : Frame) : Frame :=
  ⟨f fr.label, fr.before.map (Syntax.relabel f), fr.after.map (Syntax.relabel f)⟩

theorem Frame.plug_relabel (fr : Frame) (t : Syntax) :
    (fr.relabel f).plug (t.relabel f) = (fr.plug t).relabel f := by
  simp [plug, relabel]

namespace Location

/-- The same place in the tree with other labels. -/
def relabel (l : Location) : Location := ⟨l.focus.relabel f, l.trail.map (Frame.relabel f)⟩

@[simp]
theorem label_relabel (l : Location) : (l.relabel f).label = f l.label :=
  Syntax.label_relabel f l.focus

@[simp]
theorem depth_relabel (l : Location) : (l.relabel f).depth = l.depth := List.length_map _

theorem relabel_root (t : Syntax) : (root t).relabel f = root (t.relabel f) := rfl

theorem relabel_within (outer inner : Location) :
    (outer.within inner).relabel f = (outer.relabel f).within (inner.relabel f) := by
  simp [within, relabel]

theorem firstChild?_relabel (l : Location) :
    (l.relabel f).firstChild? = l.firstChild?.map (relabel f) := by
  obtain ⟨⟨label, _ | ⟨t, ts⟩⟩, trail⟩ := l
  · simp [relabel, firstChild?]
  · simp [relabel, firstChild?, Frame.relabel]

theorem nextSibling?_relabel (l : Location) :
    (l.relabel f).nextSibling? = l.nextSibling?.map (relabel f) := by
  obtain ⟨t, _ | ⟨⟨label, before, _ | ⟨u, us⟩⟩, above⟩⟩ := l
  · rfl
  · rfl
  · simp [relabel, nextSibling?, Frame.relabel]

theorem parent?_relabel (l : Location) : (l.relabel f).parent? = l.parent?.map (relabel f) := by
  obtain ⟨t, _ | ⟨fr, above⟩⟩ := l
  · rfl
  · show some (Location.mk ((fr.relabel f).plug (t.relabel f)) (above.map (Frame.relabel f))) = _
    rw [Frame.plug_relabel]
    rfl

mutual

theorem preorderFrom_relabel (trail : List Frame) : ∀ t : Syntax,
    preorderFrom (trail.map (Frame.relabel f)) (t.relabel f)
      = (preorderFrom trail t).map (relabel f)
  | .node label ts => by
    have hts := preorderAcross_relabel trail label [] ts
    rw [List.map_nil] at hts
    rw [Syntax.relabel_node, preorderFrom, hts, preorderFrom, List.map_cons, relabel,
      Syntax.relabel_node]

theorem preorderAcross_relabel (trail : List Frame) (label : Label) (before : List Syntax) :
    ∀ ts : List Syntax,
    preorderAcross (trail.map (Frame.relabel f)) (f label) (before.map (Syntax.relabel f))
        (ts.map (Syntax.relabel f))
      = (preorderAcross trail label before ts).map (relabel f)
  | [] => by
    rw [List.map_nil, preorderAcross, preorderAcross, List.map_nil]
  | t :: ts => by
    have ht := preorderFrom_relabel (⟨label, before, ts⟩ :: trail) t
    have hts := preorderAcross_relabel trail label (t :: before) ts
    rw [List.map_cons] at ht hts
    rw [List.map_cons, preorderAcross, hts, preorderAcross, List.map_append, ← ht]
    rfl

end

theorem preorder_relabel (l : Location) : (l.relabel f).preorder = l.preorder.map (relabel f) :=
  preorderFrom_relabel f l.trail l.focus

end Location

/-! ### Nodes and cursors -/

/-- The corresponding node of a tree with other labels. -/
def Node.relabel (u : Tree) (n : Node) : Node := ⟨u, n.place.map (Location.relabel f)⟩

/-- A node with another label says the same, if what is read off the two labels is the same. -/
theorem Node.map_label?_relabel {f : Label → Label} {u : Tree} {n : Node} {α : Type}
    {read read' : Label → α} (h : ∀ l, read' (f l) = read l) :
    (n.relabel f u).label?.map read' = n.label?.map read := by
  obtain ⟨t, _ | l⟩ := n
  · rfl
  · show some (read' (l.relabel f).label) = some (read l.label)
    rw [Location.label_relabel, h]

/-- Nodes of two trees that differ in their labels correspond if they have the same index. -/
theorem Node.ofIndex_relabel {t u : Tree} (h : u.shape = t.shape.relabel f)
    (index : Option Nat) : ofIndex u index = (ofIndex t index).relabel f u := by
  have hlocate : ∀ i, u.locate? i = (t.locate? i).map (Location.relabel f) := by
    intro i
    rw [Tree.locate?, h, ← Location.relabel_root, Location.preorder_relabel, List.getElem?_map]
    rfl
  cases index with
  | none => rfl
  | some i =>
    show Node.mk u (u.locate? i) = _
    rw [hlocate]
    rfl

namespace Cursor

/-- The corresponding cursor over a tree with other labels. -/
def relabel (u : Tree) (c : Cursor) : Cursor := ⟨u, c.origin.relabel f, c.here.relabel f⟩

variable (u : Tree) (c : Cursor)

theorem node_relabel : (c.relabel f u).node = c.node.relabel f u := by
  show Node.mk u (some ((c.origin.relabel f).within (c.here.relabel f))) = _
  rw [← Location.relabel_within]
  rfl

theorem ofNode_relabel (n : Node) :
    ofNode (n.relabel f u) = (ofNode n).map (relabel f u) := by
  obtain ⟨t, _ | l⟩ := n
  · rfl
  · rfl

theorem move_relabel {step : Location → Option Location}
    (h : ∀ l, step (l.relabel f) = (step l).map (Location.relabel f)) :
    ((c.relabel f u).move step).1 = (c.move step).1.relabel f u := by
  have hhere : step (c.relabel f u).here = (step c.here).map (Location.relabel f) := h c.here
  unfold move
  rw [hhere]
  cases step c.here with
  | none => rfl
  | some l => rfl

theorem go_relabel (m : Move) : ((c.relabel f u).go m).1 = (c.go m).1.relabel f u := by
  cases m with
  | firstChild => exact move_relabel f u c (Location.firstChild?_relabel f)
  | nextSibling => exact move_relabel f u c (Location.nextSibling?_relabel f)
  | parent => exact move_relabel f u c (Location.parent?_relabel f)

/-- Corresponding cursors that make the same moves come to corresponding places. -/
theorem follow_relabel (moves : List Move) :
    (c.relabel f u).follow moves = (c.follow moves).relabel f u := by
  induction moves generalizing c with
  | nil => rfl
  | cons m moves ih =>
    show ((c.relabel f u).go m).1.follow moves = ((c.go m).1.follow moves).relabel f u
    rw [go_relabel, ih]

end Cursor

/-! ### Outlines -/

namespace Outline

/-- A step of a walk that counts, in the tree with other labels. -/
def relabelStep : Location ⊕ Location × Nat → Location ⊕ Location × Nat :=
  Sum.map (Location.relabel f) (Prod.map (Location.relabel f) id)

theorem climb_relabel (l : Location) (depth : Nat) :
    climb (l.relabel f) depth = (climb l depth).map (relabelStep f) := by
  fun_induction climb l depth with
  | case1 l depth hp =>
    have hp' := Location.parent?_relabel f l
    rw [hp] at hp'
    exact climb_top hp' depth
  | case2 l p hp =>
    have hp' := Location.parent?_relabel f l
    rw [hp] at hp'
    exact climb_zero hp'
  | case3 l p hp depth s hs =>
    have hp' := Location.parent?_relabel f l
    rw [hp] at hp'
    rw [climb_succ hp', Location.nextSibling?_relabel, hs]
    rfl
  | case4 l p hp depth hs ih =>
    have hp' := Location.parent?_relabel f l
    rw [hp] at hp'
    rw [climb_succ hp', Location.nextSibling?_relabel, hs]
    exact ih

theorem advance_relabel (l : Location) (depth : Nat) :
    advance (l.relabel f) depth = (advance l depth).map (relabelStep f) := by
  unfold advance
  rw [Location.firstChild?_relabel, Location.nextSibling?_relabel]
  cases l.firstChild? with
  | some c => rfl
  | none =>
    cases l.nextSibling? with
    | some s => rfl
    | none => exact climb_relabel f l depth

/-- **The same lines, the same text**: walks that write the same line at corresponding places write
the same text, and end at corresponding places. -/
theorem lines_relabel (c d : Cursor)
    (hline : ∀ l depth, line { d with here := l.relabel f } depth = line { c with here := l } depth)
    (l : Location) (depth : Nat) :
    lines d (l.relabel f) depth = (lines c l depth).map (Prod.map id (Location.relabel f)) := by
  fun_induction lines c l depth with
  | case1 l depth h =>
    rw [lines_eq, advance_relabel, h]
    rfl
  | case2 l depth written last h =>
    rw [lines_eq, advance_relabel, h]
    show some (line { d with here := l.relabel f } depth, last.relabel f) = _
    rw [hline]
    rfl
  | case3 l depth m next h hm ih =>
    rw [lines_eq, advance_relabel, h]
    show (lines d (m.relabel f) next).map _ = none
    rw [ih, hm]
    rfl
  | case4 l depth written m next h rest last hm ih =>
    rw [lines_eq, advance_relabel, h]
    show (lines d (m.relabel f) next).map _ = _
    rw [ih, hm, hline]
    rfl

end Outline

end SyntaxView
