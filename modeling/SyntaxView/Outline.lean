import SyntaxView.Cursor

/-!
# Outlines

The outline of a subtree has a line for each of its named nodes, indented by two spaces for each
step down to it.  It is written during a walk, with a counter of its own for the steps: up by one
at a first child, down by one at a climb.  A walk that climbs above the place it started at would
bring the counter below zero; then there is no outline.
-/

namespace SyntaxView.Outline

/-- The line of the node a cursor is on, `depth` steps down.  An unnamed node has none. -/
def line (c : Cursor) (depth : Nat) : String :=
  if c.node.isNamed then
    .ofList (List.replicate (2 * depth) ' ') ++ c.snapshot.render ++ "\n"
  else ""

/-- The way on after a whole subtree, with the counter.  At the end of the walk the origin is on
the left; there is nothing if the counter would fall below zero. -/
def climb (l : Location) (depth : Nat) : Option (Location ⊕ Location × Nat) :=
  match _h : l.parent? with
  | none => some (.inl l)
  | some p =>
    match depth with
    | 0 => none
    | depth + 1 =>
      match p.nextSibling? with
      | some s => some (.inr (s, depth))
      | none => climb p depth
termination_by l.depth
decreasing_by have := Location.depth_parent? _h; omega

/-- The next node in pre-order, with the counter. -/
def advance (l : Location) (depth : Nat) : Option (Location ⊕ Location × Nat) :=
  match l.firstChild? with
  | some c => some (.inr (c, depth + 1))
  | none =>
    match l.nextSibling? with
    | some s => some (.inr (s, depth))
    | none => climb l depth

/-- A counted climb comes to the same node as one that does not count. -/
theorem climb_eq {l m : Location} {depth d : Nat} (h : climb l depth = some (.inr (m, d))) :
    l.climb = .inr m := by
  fun_induction climb l depth with
  | case1 => simp at h
  | case2 => simp at h
  | case3 l p hp depth s hs =>
    obtain ⟨rfl, rfl⟩ : s = m ∧ depth = d := by simpa using h
    rw [Location.climb]
    split <;> simp_all
  | case4 l p hp depth hs ih =>
    rw [Location.climb]
    split <;> simp_all

/-- A counted step comes to the same node as one that does not count. -/
theorem advance_eq {l m : Location} {depth d : Nat} (h : advance l depth = some (.inr (m, d))) :
    l.advance = .inr m := by
  rw [advance] at h
  rw [Location.advance]
  cases hc : l.firstChild? with
  | some c =>
    rw [hc] at h
    obtain ⟨rfl, -⟩ : c = m ∧ depth + 1 = d := by simpa using h
    rfl
  | none =>
    rw [hc] at h
    cases hs : l.nextSibling? with
    | some s =>
      rw [hs] at h
      obtain ⟨rfl, -⟩ : s = m ∧ depth = d := by simpa using h
      rfl
    | none =>
      rw [hs] at h
      exact climb_eq h

/-- The lines from the present node on, and where the walk ends. -/
def lines (c : Cursor) (l : Location) (depth : Nat) : Option (String × Location) :=
  let written := line { c with here := l } depth
  match _h : advance l depth with
  | none => none
  | some (.inl last) => some (written, last)
  | some (.inr (m, depth)) =>
    match lines c m depth with
    | none => none
    | some (rest, last) => some (written ++ rest, last)
termination_by l.ahead
decreasing_by exact Location.ahead_advance (advance_eq _h)

end SyntaxView.Outline

namespace SyntaxView.Cursor

/-- The outline of what is left of the walk, and the cursor back at its origin. -/
def outline? (c : Cursor) : Option (String × Cursor) :=
  (Outline.lines c c.here 0).map fun (text, last) => (text, { c with here := last })

end SyntaxView.Cursor
