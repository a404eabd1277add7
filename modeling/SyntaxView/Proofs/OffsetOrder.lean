import SyntaxView.Proofs.NativeOffsets
import SyntaxView.Query.Cursor

/-!
# The order of offsets, points and ranges

Converting an offset to the engine's unit and back loses nothing but what lies beyond the largest
word: `Encoding.fromNative_toNative` says what comes back.

Both directions keep the order of offsets (`Encoding.toNative_le_toNative`,
`Encoding.fromNative_le_fromNative`).  Points are ordered by rows, which are not converted, and
within a row by columns, which are converted like offsets, so both directions keep the order of
points too (`Point.scale_le_scale`), and what is in order on one side is in order on the other.
`Encoding.order_kept` puts this together, up to the ranges that the engine is asked about.
-/

namespace SyntaxView

/-! ### Offsets -/

namespace Encoding

variable (e : Encoding)

theorem toNative_le_toNative {x x' : Nat} (h : x ≤ x') : e.toNative x ≤ e.toNative x' := by
  have hmul : x * e.ratio ≤ x' * e.ratio := Nat.mul_le_mul_right e.ratio h
  unfold toNative
  omega

theorem fromNative_le_fromNative {y y' : Nat} (h : y ≤ y') : e.fromNative y ≤ e.fromNative y' :=
  Nat.div_le_div_right h

/-- **There and back.**  An offset comes back as it was, unless the largest word was in its way. -/
theorem fromNative_toNative (x : Nat) :
    e.fromNative (e.toNative x) = min x (maxOffset / e.ratio) := by
  unfold fromNative toNative
  by_cases hx : x ≤ maxOffset / e.ratio
  · have hmul : x * e.ratio ≤ maxOffset := (Nat.le_div_iff_mul_le e.ratio_pos).mp hx
    rw [Nat.min_eq_left hmul, Nat.min_eq_left hx, Nat.mul_div_cancel x e.ratio_pos]
  · have hlt : maxOffset / e.ratio < x := Nat.lt_of_not_le hx
    have hmul : maxOffset < x * e.ratio := (Nat.div_lt_iff_lt_mul e.ratio_pos).mp hlt
    rw [Nat.min_eq_right (Nat.le_of_lt hmul), Nat.min_eq_right (Nat.le_of_lt hlt)]

/-- A native offset goes back to the first byte of the code unit it is in. -/
theorem toNative_fromNative {y : Nat} (h : y ≤ maxOffset) :
    e.toNative (e.fromNative y) = y - y % e.ratio := by
  have hdiv : y / e.ratio * e.ratio = y - y % e.ratio := Nat.div_mul_self_eq_mod_sub_self
  unfold toNative fromNative
  rw [hdiv]
  omega

/-- Different offsets are told apart by the engine unless both go beyond the largest word.  In
UTF-16 the last offset that does not go beyond it goes to an even number, and the largest word is
odd; in UTF-8 no word goes beyond it. -/
theorem toNative_eq_iff {x x' : Nat} (hx : x ≤ maxOffset) (hx' : x' ≤ maxOffset) (hne : x ≠ x') :
    e.toNative x = e.toNative x' ↔ maxOffset / e.ratio < x ∧ maxOffset / e.ratio < x' := by
  unfold toNative
  cases e with
  | utf8 =>
    simp only [ratio, Nat.mul_one, Nat.div_one]
    omega
  | utf16 =>
    simp only [ratio, maxOffset]
    omega

end Encoding

/-! ### Points -/

namespace Point

variable {p q : Point}

/-- The order of points is the one by which they are compared. -/
theorem compare_ne_gt_iff : p.compare q ≠ .gt ↔ p ≤ q := by
  show _ ↔ p.row < q.row ∨ p.row = q.row ∧ p.column ≤ q.column
  unfold compare
  rcases Nat.lt_trichotomy p.row q.row with hlt | heq | hgt
  · rw [Nat.compare_eq_lt.mpr hlt]
    simp [hlt]
  · rw [Nat.compare_eq_eq.mpr heq, Ordering.eq_then, Nat.compare_ne_gt]
    simp [heq]
  · rw [Nat.compare_eq_gt.mpr hgt]
    simp
    omega

/-- A conversion of columns that keeps their order keeps the order of points. -/
theorem scale_le_scale {f : Nat → Nat} (hf : ∀ {x x' : Nat}, x ≤ x' → f x ≤ f x') (h : p ≤ q) :
    (⟨p.row, f p.column⟩ : Point) ≤ ⟨q.row, f q.column⟩ := by
  rcases h with hrow | ⟨hrow, hcolumn⟩
  · exact .inl hrow
  · exact .inr ⟨hrow, hf hcolumn⟩

end Point

/-- The range does not end before it starts, neither by its offsets nor by its points. -/
structure Range.InOrder (r : Range) : Prop where
  bytes : r.startByte ≤ r.endByte
  points : r.startPoint ≤ r.endPoint

theorem Range.InOrder.fromNative {r : Range} (h : r.InOrder) (e : Encoding) :
    (e.rangeFromNative r).InOrder where
  bytes := e.fromNative_le_fromNative h.bytes
  points := Point.scale_le_scale e.fromNative_le_fromNative h.points

/-! ### Ranges the engine is asked about -/

/-- A range that is not reversed is accepted. -/
theorem eq_ok_unless_reversed_iff {α : Type} {fault : Fault} {a b : α} {start stop : Nat} :
    (if stop < start then .error fault else .ok a) = Except.ok b ↔ start ≤ stop ∧ b = a := by
  by_cases h : stop < start
  · rw [if_pos h]
    simp
    omega
  · rw [if_neg h]
    simp [Nat.le_of_not_lt h, eq_comm]

theorem Node.descendantForByteRange_eq_ok_iff (n m : Node) (start stop : Nat)
    (engine : Nat → Nat → Option Nat) :
    n.descendantForByteRange start stop engine = .ok m ↔
      start ≤ stop ∧
        m = n.ask (engine (n.encoding.toNative start) (n.encoding.toNative stop)) :=
  eq_ok_unless_reversed_iff

theorem QueryCursor.setByteRange_eq_ok_iff (c c' : QueryCursor) (start stop : Nat) :
    c.setByteRange start stop = .ok c' ↔
      start ≤ stop ∧
        c' = { c with
          range := some (c.node.encoding.toNative start, c.node.encoding.toNative stop) } :=
  eq_ok_unless_reversed_iff

/-- **What converting offsets keeps.**  Below the largest word the two directions are adjoint.  An
offset comes back as it was if and only if the largest word, in the caller's unit, is not less; a
native one comes back as the first byte of its code unit; and two different offsets become the same
native one if and only if both go beyond the largest word.  Points keep their rows and their order
in both directions, and a range that is in order on the engine's side is in order for the caller.
What a caller asks about a range is refused if the range is reversed, and otherwise the engine is
asked about a native range that is in order. -/
theorem Encoding.order_kept :
    (∀ e : Encoding,
      (∀ x ≤ maxOffset, ∀ y < maxOffset, e.toNative x ≤ y ↔ x ≤ e.fromNative y) ∧
      (∀ x ≤ maxOffset, e.fromNative (e.toNative x) = x ↔ x ≤ maxOffset / e.ratio) ∧
      (∀ y ≤ maxOffset, e.toNative (e.fromNative y) = y - y % e.ratio) ∧
      (∀ x ≤ maxOffset, ∀ x' ≤ maxOffset, x ≠ x' →
        (e.toNative x = e.toNative x' ↔ maxOffset / e.ratio < x ∧ maxOffset / e.ratio < x')) ∧
      (∀ p q : Point, (p ≤ q ↔ p.compare q ≠ .gt) ∧
        (p ≤ q → e.pointToNative p ≤ e.pointToNative q ∧
          e.pointFromNative p ≤ e.pointFromNative q)) ∧
      (∀ p : Point, (e.pointToNative p).row = p.row ∧ (e.pointFromNative p).row = p.row) ∧
      (∀ r : Range, r.InOrder → (e.rangeFromNative r).InOrder)) ∧
    (∀ (n m : Node) (start stop : Nat) (engine : Nat → Nat → Option Nat),
      n.descendantForByteRange start stop engine = .ok m ↔
        start ≤ stop ∧ ∃ first last, first ≤ last ∧
          first = n.encoding.toNative start ∧ last = n.encoding.toNative stop ∧
          m = n.ask (engine first last)) ∧
    (∀ (c c' : QueryCursor) (start stop : Nat),
      c.setByteRange start stop = .ok c' ↔
        start ≤ stop ∧ ∃ first last, first ≤ last ∧
          first = c.node.encoding.toNative start ∧ last = c.node.encoding.toNative stop ∧
          c' = { c with range := some (first, last) } ∧
          ∀ engine, (c'.execute engine).1
            = (engine (some (first, last)) c.matchLimit).found.map
                (.ofFound c.query.captures c.node.tree)) := by
  refine ⟨fun e => ⟨?_, ?_, ?_, ?_, ?_, ?_, ?_⟩, ?_, ?_⟩
  · intro x _ y hy
    exact e.toNative_le_iff hy x
  · intro x _
    rw [e.fromNative_toNative]
    constructor
    · intro h
      rw [← h]
      exact Nat.min_le_right _ _
    · intro h
      exact Nat.min_eq_left h
  · intro y hy
    exact e.toNative_fromNative hy
  · intro x hx x' hx' hne
    exact e.toNative_eq_iff hx hx' hne
  · intro p q
    refine ⟨Point.compare_ne_gt_iff.symm, fun h => ⟨?_, ?_⟩⟩
    · exact Point.scale_le_scale e.toNative_le_toNative h
    · exact Point.scale_le_scale e.fromNative_le_fromNative h
  · intro p
    exact ⟨rfl, rfl⟩
  · intro r h
    exact h.fromNative e
  · intro n m start stop engine
    rw [n.descendantForByteRange_eq_ok_iff]
    constructor
    · rintro ⟨hle, rfl⟩
      exact ⟨hle, _, _, n.encoding.toNative_le_toNative hle, rfl, rfl, rfl⟩
    · rintro ⟨hle, first, last, -, rfl, rfl, rfl⟩
      exact ⟨hle, rfl⟩
  · intro c c' start stop
    rw [c.setByteRange_eq_ok_iff]
    constructor
    · rintro ⟨hle, rfl⟩
      exact ⟨hle, _, _, c.node.encoding.toNative_le_toNative hle, rfl, rfl, rfl, fun engine => rfl⟩
    · rintro ⟨hle, first, last, -, rfl, rfl, rfl, -⟩
      exact ⟨hle, rfl⟩

/-- At the top of the words: the last offset that comes back and the first one that does not, which
becomes the same native offset as the largest word.  It is beyond every other native offset, and
within its row a point with such a column is the last one. -/
theorem Encoding.order_kept_top :
    (0x8000000000000000 ≤ maxOffset ∧ maxOffset - 1 < maxOffset ∧
      ¬ utf16.toNative 0x8000000000000000 ≤ maxOffset - 1) ∧
    utf16.fromNative (utf16.toNative 0x7FFFFFFFFFFFFFFF) = 0x7FFFFFFFFFFFFFFF ∧
    utf16.fromNative (utf16.toNative 0x8000000000000000) ≠ 0x8000000000000000 ∧
    utf16.toNative (utf16.fromNative maxOffset) = maxOffset - 1 ∧
    utf16.toNative 0x8000000000000000 = utf16.toNative maxOffset ∧
    utf16.pointToNative ⟨1, 0x8000000000000000⟩ ≤ utf16.pointToNative ⟨2, 0⟩ ∧
    (utf16.rangeFromNative ⟨3, 5, ⟨0, 3⟩, ⟨1, 0⟩⟩).InOrder := by
  obtain ⟨hadjoint, hback, hforth, hshared, hpoints, -, hranges⟩ := order_kept.1 utf16
  refine ⟨⟨by decide, by decide, fun hle => ?_⟩, ?_, fun hsame => ?_, ?_, ?_, ?_, ?_⟩
  · have := (hadjoint 0x8000000000000000 (by decide) (maxOffset - 1) (by decide)).1 hle
    revert this
    decide
  · exact (hback 0x7FFFFFFFFFFFFFFF (by decide)).2 (by decide)
  · have := (hback 0x8000000000000000 (by decide)).1 hsame
    revert this
    decide
  · exact hforth maxOffset (by decide)
  · exact (hshared 0x8000000000000000 (by decide) maxOffset (by decide) (by decide)).2 (by decide)
  · exact ((hpoints ⟨1, 0x8000000000000000⟩ ⟨2, 0⟩).2 (by decide)).1
  · exact hranges _ ⟨by decide, by decide⟩

end SyntaxView
