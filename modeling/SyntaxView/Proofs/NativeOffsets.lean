import SyntaxView.Proofs.Walk

/-!
# Offsets on their way to the engine

An offset is multiplied on its way to the engine and may stop at the largest word there; on its way
back it is divided, rounding down.  The check of an offset against the span of a node is made on the
engine's side, while the caller is told the two ends of the span in its own unit.

Below the largest word the two directions are adjoint (`Encoding.toNative_le_iff`): an offset does
not lie beyond a native one if and only if it does not lie beyond what the caller is told of it.
Rounding down is harmless at the end of a span for this reason.  At its start the inequality is the
other way round, which is not what an adjunction gives, and there the start has to be the first byte
of a code unit (`Encoding.le_toNative_iff`).

`Node.firstChildForByte_eq` puts both together: the caller can tell from the reported span which
offsets are refused.
-/

namespace SyntaxView

/-! ### Converting there and back -/

namespace Encoding

variable (e : Encoding)

/-- A conversion that comes out below the largest word has not stopped there. -/
theorem toNative_of_lt {offset : Nat} (h : e.toNative offset < maxOffset) :
    e.toNative offset = offset * e.ratio := by
  unfold toNative at h ⊢
  omega

/-- **The adjunction**, for native offsets below the largest word. -/
theorem toNative_le_iff {native : Nat} (h : native < maxOffset) (offset : Nat) :
    e.toNative offset ≤ native ↔ offset ≤ e.fromNative native := by
  have hdiv : offset ≤ e.fromNative native ↔ offset * e.ratio ≤ native :=
    Nat.le_div_iff_mul_le e.ratio_pos
  have hmin : e.toNative offset ≤ native ↔ offset * e.ratio ≤ native := by
    unfold toNative
    omega
  rw [hdiv, hmin]

/-- From below, native offsets and those of the caller compare alike where a code unit starts. -/
theorem le_toNative_iff {native : Nat} (hunit : e.ratio ∣ native) (h : native ≤ maxOffset)
    (offset : Nat) : native ≤ e.toNative offset ↔ e.fromNative native ≤ offset := by
  obtain ⟨start, rfl⟩ := hunit
  have hstart : e.fromNative (e.ratio * start) = start := Nat.mul_div_cancel_left start e.ratio_pos
  have hmin : e.ratio * start ≤ e.toNative offset ↔ e.ratio * start ≤ e.ratio * offset := by
    unfold toNative
    rw [Nat.mul_comm offset]
    omega
  rw [hstart, hmin]
  exact Nat.mul_le_mul_left_iff e.ratio_pos

end Encoding

/-! ### The span of a node -/

namespace Node

variable (n : Node)

/-- The first byte of a node, as the engine counts; zero for the null node. -/
def nativeStart : Nat := (n.label?.map (·.startByte)).getD 0

/-- The byte after the last one of a node, as the engine counts; zero for the null node. -/
def nativeEnd : Nat := (n.label?.map (·.endByte)).getD 0

/-- What the caller is told of an offset that a label holds. -/
theorem getD_map_fromNative (read : Label → Nat) :
    (n.label?.map fun l => n.encoding.fromNative (read l)).getD 0
      = n.encoding.fromNative ((n.label?.map read).getD 0) := by
  cases n.label? with
  | none => exact (Nat.zero_div n.encoding.ratio).symm
  | some l => rfl

theorem startByte_eq : n.startByte = n.encoding.fromNative n.nativeStart :=
  n.getD_map_fromNative (·.startByte)

theorem endByte_eq : n.endByte = n.encoding.fromNative n.nativeEnd :=
  n.getD_map_fromNative (·.endByte)

/-- What the span of a node has to be like for the caller to see its ends where they are: it starts
with a code unit, does not end before it starts, and ends before the largest word.  It may end
within a code unit. -/
structure SpansUnits : Prop where
  aligned : n.encoding.ratio ∣ n.nativeStart
  ordered : n.nativeStart ≤ n.nativeEnd
  below : n.nativeEnd < maxOffset

variable {n}

/-- An offset lies in the native span just if it lies in the reported one. -/
theorem SpansUnits.inside_iff (h : n.SpansUnits) (offset : Nat) :
    (n.nativeStart ≤ n.encoding.toNative offset ∧ n.encoding.toNative offset ≤ n.nativeEnd) ↔
      (n.startByte ≤ offset ∧ offset ≤ n.endByte) := by
  have hword : n.nativeStart ≤ maxOffset := Nat.le_trans h.ordered (Nat.le_of_lt h.below)
  rw [startByte_eq, endByte_eq, n.encoding.toNative_le_iff h.below,
    n.encoding.le_toNative_iff h.aligned hword]

/-- An offset in the reported span is converted exactly. -/
theorem SpansUnits.toNative_eq (h : n.SpansUnits) {offset : Nat} (hin : offset ≤ n.endByte) :
    n.encoding.toNative offset = offset * n.encoding.ratio := by
  apply n.encoding.toNative_of_lt
  rw [endByte_eq, ← n.encoding.toNative_le_iff h.below] at hin
  exact Nat.lt_of_le_of_lt hin h.below

/-- **The check of an offset**, as the caller sees it. -/
theorem SpansUnits.checkOffset_eq (h : n.SpansUnits) (offset : Nat) :
    n.checkOffset offset
      = if offset < n.startByte ∨ n.endByte < offset then
          .error (.offsetOutOfRange offset n.startByte n.endByte)
        else .ok (offset * n.encoding.ratio) := by
  have hinside := h.inside_iff offset
  have hcheck : n.checkOffset offset
      = if n.encoding.toNative offset < n.nativeStart ∨
            n.nativeEnd < n.encoding.toNative offset then
          .error (.offsetOutOfRange offset n.startByte n.endByte)
        else .ok (n.encoding.toNative offset) := rfl
  rw [hcheck]
  by_cases hout : offset < n.startByte ∨ n.endByte < offset
  · rw [if_pos hout, if_pos (by omega)]
  · rw [if_neg hout, if_neg (by omega), h.toNative_eq (by omega)]

/-- **Offsets are refused by the reported span.**  Where the first child is looked for that reaches
beyond an offset, be it among all children or among the named ones, the offset is refused if and
only if it is less than the reported start or greater than the reported end of the node, and the
fault names it and these two.  Otherwise the engine is asked, unless the node is null, about the
offset times the number of bytes of a code unit; this product does not stop at the largest word and
lies in the native span of the node. -/
theorem firstChildForByte_eq (h : n.SpansUnits) (offset : Nat) (engine : Nat → Option Nat) :
    n.firstChildForByte offset engine
      = (if offset < n.startByte ∨ n.endByte < offset then
          .error (.offsetOutOfRange offset n.startByte n.endByte)
        else .ok (n.ask (engine (offset * n.encoding.ratio)))) ∧
    (n.startByte ≤ offset ∧ offset ≤ n.endByte →
      n.encoding.toNative offset = offset * n.encoding.ratio ∧
      n.nativeStart ≤ offset * n.encoding.ratio ∧ offset * n.encoding.ratio ≤ n.nativeEnd) := by
  constructor
  · unfold firstChildForByte
    rw [h.checkOffset_eq]
    split
    · rfl
    · rfl
  · intro hin
    have hexact := h.toNative_eq hin.2
    have hspan := (h.inside_iff offset).mpr hin
    rw [hexact] at hspan
    exact ⟨hexact, hspan⟩

end Node

/-- A name of two and a half code units in UTF-16. -/
def Sample.oddName : Tree :=
  ⟨2, .node (label "name" true 2 7 none) [], .encode "abcd" .utf16, .javascript⟩

/-- The name reaches from 1 to 3 for the caller.  Its end is accepted though its last byte is not
the end of a code unit, the next offset is refused, and so is one whose double does not fit into a
word; of the null node only the offset 0 is accepted. -/
theorem Node.firstChildForByte_eq_oddName :
    let n := Node.root Sample.oddName
    let m := Node.null Sample.oddName
    let refused : Nat → Nat → Nat → Except Fault Node := fun offset start stop =>
      .error (.offsetOutOfRange offset start stop)
    n.SpansUnits ∧ m.SpansUnits ∧
    (∀ engine, n.firstChildForByte 3 engine = .ok (n.ask (engine 6)) ∧
      n.firstChildForByte 0 engine = refused 0 1 3 ∧ n.firstChildForByte 4 engine = refused 4 1 3 ∧
      n.firstChildForByte 0x8000000000000001 engine = refused 0x8000000000000001 1 3 ∧
      m.firstChildForByte 0 engine = .ok m ∧ m.firstChildForByte 1 engine = refused 1 0 0) := by
  intro n m refused
  have hn : n.SpansUnits := ⟨by decide, by decide, by decide⟩
  have hm : m.SpansUnits := ⟨by decide, by decide, by decide⟩
  have hspan : n.startByte = 1 ∧ n.endByte = 3 := by decide
  refine ⟨hn, hm, fun engine => ?_⟩
  have hname := fun offset => (firstChildForByte_eq hn offset engine).1
  have hnull := fun offset => (firstChildForByte_eq hm offset engine).1
  rw [hspan.1, hspan.2] at hname
  exact ⟨hname 3, hname 0, hname 4, hname 0x8000000000000001, hnull 0, hnull 1⟩

end SyntaxView
