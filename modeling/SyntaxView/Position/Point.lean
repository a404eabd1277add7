/-!
# Points, ranges and edits

Places in a text: a point is a row and a column, a range is a stretch of text given both by
offsets and by points, an edit says which stretch of a text was replaced by which.  None of them
says in which unit its offsets and columns count; `SyntaxView.Position.Encoding` converts between
the two units in use.
-/

namespace SyntaxView

/-- A place in a text, rows and columns counted from zero. -/
structure Point where
  row : Nat
  column : Nat
  deriving Repr, DecidableEq, Inhabited

/-- A stretch of text, from `startByte` up to but not including `endByte`. -/
structure Range where
  startByte : Nat
  endByte : Nat
  startPoint : Point
  endPoint : Point
  deriving Repr, DecidableEq, Inhabited

/-- One replacement in a text: what stood from `startByte` to `oldEndByte` now ends at
`newEndByte`. -/
structure Edit where
  startByte : Nat
  oldEndByte : Nat
  newEndByte : Nat
  startPoint : Point
  oldEndPoint : Point
  newEndPoint : Point
  deriving Repr, DecidableEq, Inhabited

namespace Point

/-- The first place of every text. -/
def origin : Point := ⟨0, 0⟩

def isOrigin (p : Point) : Bool := p == origin

/-- Points are ordered by row, within a row by column. -/
def compare (p q : Point) : Ordering :=
  (Ord.compare p.row q.row).then (Ord.compare p.column q.column)

instance : Ord Point := ⟨compare⟩

instance : LE Point := ⟨fun p q => p.row < q.row ∨ p.row = q.row ∧ p.column ≤ q.column⟩

instance (p q : Point) : Decidable (p ≤ q) :=
  inferInstanceAs (Decidable (p.row < q.row ∨ p.row = q.row ∧ p.column ≤ q.column))

/-- The point as `row:column`. -/
def render (p : Point) : String := s!"{p.row}:{p.column}"

/-- The least of the points, if there is one. -/
def least? : List Point → Option Point
  | [] => none
  | p :: ps => some (ps.foldl (fun a b => if a ≤ b then a else b) p)

/-- The greatest of the points, if there is one. -/
def greatest? : List Point → Option Point
  | [] => none
  | p :: ps => some (ps.foldl (fun a b => if a ≤ b then b else a) p)

/-- The points in ascending order. -/
def sort (ps : List Point) : List Point := ps.mergeSort (fun p q => p ≤ q)

/-- How each point compares with the one after it. -/
def neighbourOrders (ps : List Point) : List Ordering :=
  List.zipWith compare ps ps.tail

end Point

namespace Range

/-- The range of nothing, at the start of the text. -/
def empty : Range := ⟨0, 0, .origin, .origin⟩

def isEmpty (r : Range) : Bool := r == empty

/-- The range as its two points and, in parentheses, its two offsets. -/
def render (r : Range) : String :=
  s!"[{r.startPoint.render}] - [{r.endPoint.render}] ({r.startByte}..{r.endByte})"

end Range

end SyntaxView
