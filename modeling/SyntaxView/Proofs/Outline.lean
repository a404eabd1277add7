import SyntaxView.Outline
import SyntaxView.Proofs.Walk

/-!
# Outlines are the recursive rendering

`Syntax.rendering` writes a tree down by recursion: a line for the node if it is named, indented
by its distance from the root of the rendering, and then the renderings of its children, one step
further in.  An outline is written by a walk instead, and the indentation comes from a counter
that two loops change.

* `advance_depth`, and `climb_depth` below it: a counter that agrees with the depth of the place
  agrees after the step, so it never falls below zero.  This is the invariant of the walk.
* `lines_depth`: the walk writes the lines of the nodes it comes to, each at its depth.
* `join_lines_preorder`: the lines of a pre-order, one after the other, are the rendering.
* `Cursor.outline?_follow`: at depth zero the outline of a cursor is the rendering of the node the
  cursor was started at.
-/

namespace SyntaxView

/-! ### The rendering by recursion -/

namespace Label

/-- The line of a node `steps` below the first one: its field, its kind and its two points in the
caller's unit.  An unnamed node has none. -/
def rendering (e : Encoding) (steps : Nat) (field : Option String) (l : Label) : String :=
  if l.isNamed then
    .ofList (List.replicate (2 * steps) ' ') ++ field.elim "" (· ++ ": ") ++ l.kind
      ++ " [" ++ (e.pointFromNative l.startPoint).render
      ++ "] - [" ++ (e.pointFromNative l.endPoint).render ++ "]\n"
  else ""

end Label

namespace Syntax

mutual

/-- The lines of a tree whose root is `steps` below the first node and fills a field of its
parent. -/
def rendering (e : Encoding) (steps : Nat) (field : Option String) : Syntax → String
  | .node label ts => label.rendering e steps field ++ renderingAll e (steps + 1) ts

/-- The lines of the children of a node, each with the field it fills. -/
def renderingAll (e : Encoding) (steps : Nat) : List Syntax → String
  | [] => ""
  | t :: ts => t.rendering e steps t.label.walkField ++ renderingAll e steps ts

end

end Syntax

/-- The rendering of a node.  The node itself fills no field in it; the null node has no line. -/
def Node.rendering (n : Node) : String :=
  match n.place with
  | none => ""
  | some l => l.focus.rendering n.encoding 0 none

/-! ### Moves and depths -/

namespace Location

theorem depth_firstChild? {l m : Location} (h : l.firstChild? = some m) :
    m.depth = l.depth + 1 := by
  obtain ⟨label, t, ts, hl, rfl⟩ := firstChild?_eq_some h
  rw [hl]
  rfl

theorem depth_nextSibling? {l m : Location} (h : l.nextSibling? = some m) :
    m.depth = l.depth := by
  obtain ⟨label, before, u, us, above, hl, rfl⟩ := nextSibling?_eq_some h
  rw [hl]
  rfl

end Location

/-! ### The counter is the depth -/

namespace Outline

theorem climb_top {l : Location} (h : l.parent? = none) (depth : Nat) :
    climb l depth = some (.inl l) := by
  rw [climb]
  split
  · rfl
  · simp_all

theorem climb_zero {l p : Location} (h : l.parent? = some p) : climb l 0 = none := by
  rw [climb]
  split
  · simp_all
  · rfl

theorem climb_succ {l p : Location} (h : l.parent? = some p) (depth : Nat) :
    climb l (depth + 1) =
      match p.nextSibling? with
      | some s => some (.inr (s, depth))
      | none => climb p depth := by
  rw [climb]
  split
  · simp_all
  · rename_i q hq
    obtain rfl : p = q := by simpa [h] using hq
    rfl

/-- The present line, and then the lines from the next node on. -/
theorem lines_eq (c : Cursor) (l : Location) (depth : Nat) :
    lines c l depth =
      match advance l depth with
      | none => none
      | some (.inl last) => some (line { c with here := l } depth, last)
      | some (.inr (m, d)) =>
        (lines c m d).map fun (rest, last) => (line { c with here := l } depth ++ rest, last) := by
  rw [lines]
  cases advance l depth with
  | none => rfl
  | some step =>
    rcases step with last | ⟨m, d⟩
    · rfl
    · dsimp only
      cases lines c m d with
      | none => rfl
      | some more => rfl

/-- A step of a walk, with the depth of the place it leads to. -/
def withDepth : Location ⊕ Location → Location ⊕ Location × Nat :=
  Sum.map id fun m => (m, m.depth)

theorem climb_depth (l : Location) : climb l l.depth = some (withDepth l.climb) := by
  fun_induction Location.climb l with
  | case1 l hp => exact climb_top hp l.depth
  | case2 l p hp s hs =>
    rw [← Location.depth_parent? hp, climb_succ hp, hs, ← Location.depth_nextSibling? hs]
    rfl
  | case3 l p hp hs ih =>
    rw [← Location.depth_parent? hp, climb_succ hp, hs]
    exact ih

/-- **The invariant**: a counter that is the depth before a step is the depth after it. -/
theorem advance_depth (l : Location) : advance l l.depth = some (withDepth l.advance) := by
  unfold advance Location.advance
  cases hc : l.firstChild? with
  | some c =>
    show some (Sum.inr (c, l.depth + 1)) = some (Sum.inr (c, c.depth))
    rw [Location.depth_firstChild? hc]
  | none =>
    cases hs : l.nextSibling? with
    | some s =>
      show some (Sum.inr (s, l.depth)) = some (Sum.inr (s, s.depth))
      rw [Location.depth_nextSibling? hs]
    | none => exact climb_depth l

/-- The line a walk writes at a place. -/
def lineAt (c : Cursor) (l : Location) : String := line { c with here := l } l.depth

/-- **The walk**: it writes the lines of the places it comes to, each at its depth, and ends where
a walk that writes nothing ends. -/
theorem lines_depth (c : Cursor) (l : Location) :
    lines c l l.depth = some (String.join (l.traverse.1.map (lineAt c)), l.traverse.2) := by
  fun_induction Location.traverse l with
  | case1 l last h =>
    rw [lines_eq, advance_depth, h]
    show some (lineAt c l, last) = some (String.join [lineAt c l], last)
    rw [String.join_cons, String.join_nil, String.append_empty]
  | case2 l m h later ih =>
    rw [lines_eq, advance_depth, h]
    show (lines c m m.depth).map _ = some (String.join (lineAt c l :: later.1.map (lineAt c)), _)
    rw [ih, String.join_cons]
    rfl

/-! ### The lines of a pre-order -/

/-- The field a rendering shows for the root of a tree reached by a trail. -/
def fieldAfter (trail : List Frame) (t : Syntax) : Option String :=
  if trail.length = 0 then none else t.label.walkField

theorem render_snapshot (s : Snapshot) :
    s.render = s.field.elim "" (· ++ ": ") ++ s.kind ++ " [" ++ s.startPoint.render
      ++ "] - [" ++ s.endPoint.render ++ "]" := by
  unfold Snapshot.render
  cases s.field with
  | none => simp [toString]
  | some name => simp only [toString, Option.elim, String.append_assoc]

/-- What a walk writes at a place depends on the label there and on the depth. -/
theorem lineAt_eq (c : Cursor) (t : Syntax) (trail : List Frame) :
    lineAt c ⟨t, trail⟩ = t.label.rendering c.tree.encoding trail.length (fieldAfter trail t) := by
  unfold lineAt line Label.rendering
  rw [render_snapshot]
  simp only [String.append_assoc]
  rfl

mutual

theorem join_lines_preorderFrom (c : Cursor) (trail : List Frame) : ∀ t : Syntax,
    String.join ((Location.preorderFrom trail t).map (lineAt c))
      = t.rendering c.tree.encoding trail.length (fieldAfter trail t)
  | .node label ts => by
    rw [Location.preorderFrom, List.map_cons, String.join_cons, lineAt_eq,
      join_lines_preorderAcross c trail label [] ts, Syntax.rendering, Syntax.label]

theorem join_lines_preorderAcross (c : Cursor) (trail : List Frame) (label : Label)
    (before : List Syntax) : ∀ ts : List Syntax,
    String.join ((Location.preorderAcross trail label before ts).map (lineAt c))
      = Syntax.renderingAll c.tree.encoding (trail.length + 1) ts
  | [] => by
    rw [Location.preorderAcross, Syntax.renderingAll]
    rfl
  | t :: ts => by
    rw [Location.preorderAcross, List.map_append, String.join_append,
      join_lines_preorderFrom c _ t, join_lines_preorderAcross c trail label _ ts,
      Syntax.renderingAll]
    rfl

end

/-- The lines of a tree in pre-order are its rendering. -/
theorem join_lines_preorder (c : Cursor) (t : Syntax) :
    String.join ((Location.root t).preorder.map (lineAt c)) = t.rendering c.tree.encoding 0 none :=
  join_lines_preorderFrom c [] t

end Outline

/-! ### The outline of a node -/

namespace Cursor

/-- **An outline is the rendering.**  A cursor that was started at the node `n` and is at depth
zero, whatever moves it has made, is on `n`.  Its outline is there (so the counter never falls
below zero), it is the rendering of `n`, and the cursor is left as it was when it was started. -/
theorem outline?_follow {n : Node} {begun : Cursor} (h : ofNode n = .ok begun)
    (moves : List Move) (hd : (begun.follow moves).depth = 0) :
    (begun.follow moves).node = n ∧
      (begun.follow moves).outline? = some (n.rendering, begun) := by
  obtain ⟨l, hn, rfl⟩ := ofNode_eq_ok h
  have hc := ((walksBelow_start n.tree l).follow moves).eq_start hd
  rw [hc]
  refine ⟨hn.symm, ?_⟩
  have hlines := Outline.lines_depth (start n.tree l) (.root l.focus)
  rw [Location.traverse_eq, Location.remaining_root, Outline.join_lines_preorder] at hlines
  -- the counter starts at zero, which is the depth of the root
  unfold outline?
  show (Outline.lines _ (Location.root l.focus) (Location.root l.focus).depth).map _ = _
  rw [hlines, hn]
  rfl

/-- The outline of a sum inside a statement: no line for the plus sign, none for the semicolon. -/
theorem outline?_follow_sum :
    let n : Node := ⟨Sample.tree, some Sample.sumPlace⟩
    let begun := start Sample.tree Sample.sumPlace
    let c := begun.follow [.firstChild, .nextSibling, .parent]
    ofNode n = .ok begun ∧ c.depth = 0 ∧ c.node = n ∧
      c.outline? = some
        ("sum [0:0] - [0:3]\n  left: name [0:0] - [0:1]\n  right: name [0:2] - [0:3]\n", begun) :=
  ⟨rfl, rfl, outline?_follow rfl [.firstChild, .nextSibling, .parent] rfl⟩

end Cursor

end SyntaxView
