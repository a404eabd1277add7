import SyntaxView.Syntax.Basic

/-!
# Locations in a syntax tree

A location is a node of a tree together with the way down to it: the node in focus, and for each
step down the label of the parent and the siblings to both sides.  So the whole tree can be read
off any of its locations, and every move is a step to a neighbour.

The last section walks a tree with nothing but three moves (first child, next sibling, parent).
Such a walk has to climb after the last child of a node; it ends because the number of nodes that
lie ahead (`Location.ahead`) falls with each node it comes to.
-/

namespace SyntaxView

/-- One step down: the label of the parent, and the siblings before the child, nearest first, and
after it. -/
structure Frame where
  label : Label
  before : List Syntax
  after : List Syntax
  deriving Repr, Inhabited

/-- A node in focus and the steps that led to it, the last one first. -/
structure Location where
  focus : Syntax
  trail : List Frame
  deriving Repr, Inhabited

namespace Frame

/-- The parent, with the child put back between its siblings. -/
def plug (f : Frame) (child : Syntax) : Syntax :=
  .node f.label (f.before.reverse ++ child :: f.after)

end Frame

namespace Location

/-- The root of a tree. -/
def root (t : Syntax) : Location := ⟨t, []⟩

def label (l : Location) : Label := l.focus.label

/-- The number of steps down from the root. -/
def depth (l : Location) : Nat := l.trail.length

/-- The index of the child taken at each step, the last one first. -/
def path (l : Location) : List Nat := l.trail.map (·.before.length)

/-- A location of the tree in the focus of `outer`, as a location of the tree of `outer`. -/
def within (outer inner : Location) : Location := ⟨inner.focus, inner.trail ++ outer.trail⟩

/-! ### Moves -/

/-- The trees `after` as locations below the same parent, those in `before` (nearest first) being
to their left. -/
def rightward (label : Label) (above : List Frame) : (before after : List Syntax) → List Location
  | _, [] => []
  | before, t :: ts => ⟨t, ⟨label, before, ts⟩ :: above⟩ :: rightward label above (t :: before) ts

/-- The trees `before`, nearest first, as locations below the same parent, those in `after` being
to their right. -/
def leftward (label : Label) (above : List Frame) : (before after : List Syntax) → List Location
  | [], _ => []
  | t :: ts, after => ⟨t, ⟨label, ts, after⟩ :: above⟩ :: leftward label above ts (t :: after)

/-- The children of a node. -/
def children (l : Location) : List Location :=
  rightward l.focus.label l.trail [] l.focus.children

/-- The siblings after a node. -/
def nextSiblings : Location → List Location
  | ⟨_, []⟩ => []
  | ⟨t, f :: above⟩ => rightward f.label above (t :: f.before) f.after

/-- The siblings before a node, the nearest first. -/
def prevSiblings : Location → List Location
  | ⟨_, []⟩ => []
  | ⟨t, f :: above⟩ => leftward f.label above f.before (t :: f.after)

def firstChild? : Location → Option Location
  | ⟨.node _ [], _⟩ => none
  | ⟨.node label (t :: ts), trail⟩ => some ⟨t, ⟨label, [], ts⟩ :: trail⟩

def nextSibling? : Location → Option Location
  | ⟨t, ⟨label, before, u :: us⟩ :: above⟩ => some ⟨u, ⟨label, t :: before, us⟩ :: above⟩
  | _ => none

def parent? : Location → Option Location
  | ⟨_, []⟩ => none
  | ⟨t, f :: above⟩ => some ⟨f.plug t, above⟩

/-! ### Pre-order by recursion -/

mutual

/-- The locations of a tree reached by `trail`, each node before its children. -/
def preorderFrom (trail : List Frame) : Syntax → List Location
  | .node label ts => ⟨.node label ts, trail⟩ :: preorderAcross trail label [] ts

/-- The locations of the trees below one parent, `before` (nearest first) being to their left. -/
def preorderAcross (trail : List Frame) (label : Label) (before : List Syntax) :
    List Syntax → List Location
  | [] => []
  | t :: ts =>
    preorderFrom (⟨label, before, ts⟩ :: trail) t ++ preorderAcross trail label (t :: before) ts

end

/-- The node and all nodes below it, each before its children. -/
def preorder (l : Location) : List Location := preorderFrom l.trail l.focus

/-! ### Pre-order by moves -/

/-- The number of nodes that come after a whole subtree in pre-order. -/
def beyond (l : Location) : Nat := l.trail.foldr (fun f n => Syntax.sizeAll f.after + n) 0

/-- The number of nodes that come after a node in pre-order. -/
def ahead (l : Location) : Nat := Syntax.sizeAll l.focus.children + l.beyond

theorem ahead_firstChild? {l m : Location} (h : l.firstChild? = some m) :
    m.ahead + 1 = l.ahead := by
  obtain ⟨⟨label, _ | ⟨t, ts⟩⟩, trail⟩ := l
  · simp [firstChild?] at h
  · obtain rfl : _ = m := by simpa [firstChild?] using h
    simp [ahead, beyond, Syntax.children, Syntax.sizeAll, Syntax.size_eq t]
    omega

theorem ahead_nextSibling? {l m : Location} (h : l.nextSibling? = some m) :
    m.ahead + 1 = l.beyond := by
  obtain ⟨t, _ | ⟨⟨label, before, _ | ⟨u, us⟩⟩, above⟩⟩ := l
  · simp [nextSibling?] at h
  · simp [nextSibling?] at h
  · obtain rfl : _ = m := by simpa [nextSibling?] using h
    simp [ahead, beyond, Syntax.sizeAll, Syntax.size_eq u]
    omega

theorem beyond_parent? {l m : Location} (h : l.parent? = some m) : m.beyond ≤ l.beyond := by
  obtain ⟨t, _ | ⟨f, above⟩⟩ := l
  · simp [parent?] at h
  · obtain rfl : _ = m := by simpa [parent?] using h
    simp [beyond]

theorem depth_parent? {l m : Location} (h : l.parent? = some m) : m.depth + 1 = l.depth := by
  obtain ⟨t, _ | ⟨f, above⟩⟩ := l
  · simp [parent?] at h
  · obtain rfl : _ = m := by simpa [parent?] using h
    simp [depth]

/-- The way on after a whole subtree: up until there is a next sibling, and on to it.  Without one
the climb ends at the root, which is then on the left. -/
def climb (l : Location) : Location ⊕ Location :=
  match _h : l.parent? with
  | none => .inl l
  | some p =>
    match p.nextSibling? with
    | some s => .inr s
    | none => climb p
termination_by l.depth
decreasing_by have := depth_parent? _h; omega

theorem ahead_climb {l s : Location} (h : l.climb = .inr s) : s.ahead < l.beyond := by
  fun_induction climb l with
  | case1 => simp at h
  | case2 l p hp t ht =>
    obtain rfl : t = s := by simpa using h
    have := ahead_nextSibling? ht
    have := beyond_parent? hp
    omega
  | case3 l p hp _ ih =>
    have := ih h
    have := beyond_parent? hp
    omega

theorem beyond_le_ahead (l : Location) : l.beyond ≤ l.ahead := Nat.le_add_left _ _

/-- The next node in pre-order, found by moves alone: the first child, else the next sibling, else
what a climb comes to.  At the end of the tree it is the root, on the left. -/
def advance (l : Location) : Location ⊕ Location :=
  match l.firstChild? with
  | some c => .inr c
  | none =>
    match l.nextSibling? with
    | some s => .inr s
    | none => l.climb

theorem ahead_advance {l m : Location} (h : l.advance = .inr m) : m.ahead < l.ahead := by
  have hle := beyond_le_ahead l
  rw [advance] at h
  split at h
  · rename_i c hc
    obtain rfl : c = m := by simpa using h
    have := ahead_firstChild? hc
    omega
  · split at h
    · rename_i s hs
      obtain rfl : s = m := by simpa using h
      have := ahead_nextSibling? hs
      omega
    · have := ahead_climb h
      omega

/-- A walk by moves alone: the nodes it comes to, starting with the present one, and where it
ends. -/
def traverse (l : Location) : List Location × Location :=
  match _h : l.advance with
  | .inl last => ([l], last)
  | .inr m =>
    let later := traverse m
    (l :: later.1, later.2)
termination_by l.ahead
decreasing_by exact ahead_advance _h

end Location

end SyntaxView
