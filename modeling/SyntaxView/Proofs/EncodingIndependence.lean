import SyntaxView.Proofs.AsciiText
import SyntaxView.Proofs.Relabel

/-!
# An ASCII text reads the same in both encodings

An ASCII text has as many code units in UTF-16 as in UTF-8, and twice as many bytes.  If the engine
finds the same tree in both, its native offsets and columns in the one are twice those in the
other (`Label.widen`); such trees are `Tree.Twins`.  A caller, who counts in code units, cannot
tell twins apart:

* what a node says of itself is the same, offsets, points and text (`range_twin`,
  `content?_twin`);
* an offset is refused by both or by none, with the same fault (`checkOffset_twin`).  Offsets so
  large that the conversion to native ones stops at the largest word are the hard case: that word
  is odd, so it lies beyond every end of a node;
* a cursor shows the same wherever the same moves take it, and writes the same outline
  (`snapshot_twin`, `outline?_twin`).

`Tree.twins_answer_alike` has all of it for the nodes of one index.
-/

namespace SyntaxView

/-- The label of the same node in a text of twice the width: offsets and columns are doubled, rows
stay. -/
def Label.widen (l : Label) : Label :=
  { l with
    startByte := 2 * l.startByte
    endByte := 2 * l.endByte
    startPoint := ⟨l.startPoint.row, 2 * l.startPoint.column⟩
    endPoint := ⟨l.endPoint.row, 2 * l.endPoint.column⟩ }

namespace Tree

/-- Two trees of the text `s`, the first kept in UTF-8 and the second in UTF-16. -/
structure Twins (s : String) (t u : Tree) : Prop where
  narrow : t.source = .encode s .utf8
  wide : u.source = .encode s .utf16
  shape : u.shape = t.shape.relabel Label.widen

namespace Twins

variable {s : String} {t u : Tree} (h : Twins s t u)

include h

theorem encoding_narrow : t.encoding = .utf8 := by
  rw [Tree.encoding, h.narrow]
  rfl

theorem encoding_wide : u.encoding = .utf16 := by
  rw [Tree.encoding, h.wide]
  rfl

theorem fromNative_double (offset : Nat) :
    u.encoding.fromNative (2 * offset) = t.encoding.fromNative offset := by
  rw [h.encoding_narrow, h.encoding_wide]
  show 2 * offset / 2 = offset / 1
  omega

theorem toNative_narrow {offset : Nat} (ho : offset ≤ maxOffset) :
    t.encoding.toNative offset = offset := by
  rw [h.encoding_narrow]
  show min (offset * 1) maxOffset = offset
  omega

theorem toNative_wide (offset : Nat) : u.encoding.toNative offset = min (2 * offset) maxOffset := by
  rw [h.encoding_wide, Nat.mul_comm]
  rfl

theorem pointFromNative_double (p : Point) :
    u.encoding.pointFromNative ⟨p.row, 2 * p.column⟩ = t.encoding.pointFromNative p :=
  congrArg (Point.mk p.row) (h.fromNative_double p.column)

end Twins

end Tree

/-! ### What a node says of itself -/

namespace Node

/-- The node of the same place in a twin of the tree. -/
abbrev twin (n : Node) (u : Tree) : Node := n.relabel Label.widen u

variable {s : String} {n : Node} {u : Tree} (h : n.tree.Twins s u)

theorem kind?_twin : (n.twin u).kind? = n.kind? := map_label?_relabel fun _ => rfl

theorem isNamed_twin : (n.twin u).isNamed = n.isNamed := by
  obtain ⟨t, _ | l⟩ := n
  · rfl
  · show (l.relabel Label.widen).label.isNamed = l.label.isNamed
    rw [Location.label_relabel]
    rfl

section

include h

theorem startByte_twin : (n.twin u).startByte = n.startByte :=
  congrArg (·.getD 0) (map_label?_relabel fun l => h.fromNative_double l.startByte)

theorem endByte_twin : (n.twin u).endByte = n.endByte :=
  congrArg (·.getD 0) (map_label?_relabel fun l => h.fromNative_double l.endByte)

theorem startPoint_twin : (n.twin u).startPoint = n.startPoint :=
  congrArg (·.getD Point.origin)
    (map_label?_relabel fun l => h.pointFromNative_double l.startPoint)

theorem endPoint_twin : (n.twin u).endPoint = n.endPoint :=
  congrArg (·.getD Point.origin)
    (map_label?_relabel fun l => h.pointFromNative_double l.endPoint)

theorem range_twin : (n.twin u).range = n.range := by
  rw [range, startByte_twin h, endByte_twin h, startPoint_twin h, endPoint_twin h, range]

theorem content?_twin (hs : Text.IsAscii s.toList) : (n.twin u).content? = n.content? := by
  refine map_label?_relabel fun l => ?_
  show u.source.text (2 * l.startByte) (2 * l.endByte)
    = n.tree.source.text l.startByte l.endByte
  rw [h.narrow, h.wide, Source.text_encode_utf8 hs, Source.text_encode_utf16 hs]

end

/-! ### Offsets -/

/-- An offset in the engine's unit, zero for the null node, is twice as large in the twin. -/
theorem getD_map_twin (read : Label → Nat) (hread : ∀ l : Label, read l.widen = 2 * read l) :
    ((n.twin u).label?.map read).getD 0 = 2 * (n.label?.map read).getD 0 := by
  have hmap : (n.twin u).label?.map read = n.label?.map fun l => 2 * read l :=
    map_label?_relabel hread
  rw [hmap]
  cases n.label? with
  | none => rfl
  | some l => rfl

include h

/-- **The check of an offset**: both nodes accept it or both refuse it, and an accepted one is twice
as large in the engine's unit.  The offsets of the twin are words. -/
theorem checkOffset_twin
    (hwords : ∀ l, (n.twin u).label? = some l → l.startByte ≤ maxOffset ∧ l.endByte ≤ maxOffset)
    {offset : Nat} (ho : offset ≤ maxOffset) :
    (n.twin u).checkOffset offset = (n.checkOffset offset).map (2 * ·) := by
  have hstart := getD_map_twin (n := n) (u := u) (·.startByte) fun _ => rfl
  have hstop := getD_map_twin (n := n) (u := u) (·.endByte) fun _ => rfl
  have hword : ((n.twin u).label?.map (·.startByte)).getD 0 ≤ maxOffset ∧
      ((n.twin u).label?.map (·.endByte)).getD 0 ≤ maxOffset := by
    cases hl : (n.twin u).label? with
    | none => exact ⟨Nat.zero_le _, Nat.zero_le _⟩
    | some l => exact hwords l hl
  have hnarrow : n.encoding.toNative offset = offset := h.toNative_narrow ho
  have hwide : (n.twin u).encoding.toNative offset = min (2 * offset) maxOffset :=
    h.toNative_wide offset
  rw [hstart, hstop] at hword
  unfold checkOffset
  rw [hstart, hstop, startByte_twin h, endByte_twin h, hnarrow, hwide]
  dsimp only
  generalize (n.label?.map (·.startByte)).getD 0 = start at *
  generalize (n.label?.map (·.endByte)).getD 0 = stop at *
  -- the largest word is odd, so an end `2 * stop` that is a word lies before it
  have hodd : maxOffset = 2 * 0x7FFFFFFFFFFFFFFF + 1 := rfl
  by_cases hout : offset < start ∨ stop < offset
  · rw [if_pos hout, if_pos (by omega)]
    rfl
  · rw [if_neg hout, if_neg (by omega)]
    -- an offset up to `stop` is converted exactly
    have hexact : min (2 * offset) maxOffset = 2 * offset := by omega
    rw [hexact]
    rfl

end Node

/-! ### Cursors and outlines -/

namespace Cursor

variable {s : String} {c : Cursor} {u : Tree} (h : c.tree.Twins s u) (hs : Text.IsAscii s.toList)

/-- The cursor at the same place in a twin of the tree. -/
abbrev twin (c : Cursor) (u : Tree) : Cursor := c.relabel Label.widen u

theorem field?_twin : (c.twin u).field? = c.field? := by
  show (if (c.here.relabel Label.widen).depth = 0 then none
    else (c.here.relabel Label.widen).label.walkField) = _
  rw [Location.depth_relabel, Location.label_relabel]
  rfl

include h hs

theorem snapshot_twin : (c.twin u).snapshot = c.snapshot := by
  have hnode : c.node.tree.Twins s u := h
  unfold snapshot
  rw [field?_twin, node_relabel, Node.kind?_twin, Node.content?_twin hnode hs,
    Node.startByte_twin hnode, Node.endByte_twin hnode, Node.startPoint_twin hnode,
    Node.endPoint_twin hnode, Node.isNamed_twin]

theorem line_twin (depth : Nat) : Outline.line (c.twin u) depth = Outline.line c depth := by
  unfold Outline.line
  rw [snapshot_twin h hs, node_relabel, Node.isNamed_twin]

theorem outline?_twin : (c.twin u).outline?.map (·.1) = c.outline?.map (·.1) := by
  have hlines := Outline.lines_relabel Label.widen c (c.twin u)
    (fun l => line_twin (c := { c with here := l }) h hs) c.here 0
  unfold outline?
  show ((Outline.lines (c.twin u) (c.here.relabel Label.widen) 0).map _).map _ = _
  rw [hlines]
  cases Outline.lines c c.here 0 with
  | none => rfl
  | some written => rfl

end Cursor

/-! ### All answers -/

/-- What the engine finds at an offset plays no part in whether the offset is accepted. -/
theorem Node.map_firstChildForByte (n : Node) (offset : Nat) (engine : Nat → Option Nat) :
    (n.firstChildForByte offset engine).map (fun _ => ())
      = (n.checkOffset offset).map fun _ => () := by
  unfold firstChildForByte
  cases n.checkOffset offset with
  | error fault => rfl
  | ok native => rfl

/-- The label of a node that the engine names is a label of the tree. -/
theorem Node.label?_ofIndex {t : Tree} {index : Option Nat} {label : Label}
    (h : (ofIndex t index).label? = some label) :
    ∃ l ∈ (Location.root t.shape).preorder, l.label = label := by
  cases index with
  | none => cases h
  | some i =>
    obtain ⟨l, hl, rfl⟩ := Option.map_eq_some_iff.mp h
    exact ⟨l, List.mem_of_getElem? hl, rfl⟩

/-- **Twins answer alike.**  An ASCII text is kept in UTF-8 with one tree and in UTF-16 with the
same tree, all offsets and columns doubled; the doubled offsets are still words, as they are for
every text that fits into memory.  Then the nodes of one index, be it that of a node or none, say
the same of themselves, accept the same offsets and refuse the others with the same fault, whatever
the engine would find there.  Cursors that start at them and make the same moves show the same
and write the same outline. -/
theorem Tree.twins_answer_alike {s : String} {t u : Tree} (hs : Text.IsAscii s.toList)
    (h : Twins s t u)
    (hwords : ∀ l ∈ (Location.root u.shape).preorder,
      l.label.startByte ≤ maxOffset ∧ l.label.endByte ≤ maxOffset)
    (index : Option Nat) :
    let n := Node.ofIndex t index
    let m := Node.ofIndex u index
    (m.startByte = n.startByte ∧ m.endByte = n.endByte ∧ m.startPoint = n.startPoint ∧
      m.endPoint = n.endPoint ∧ m.range = n.range ∧ m.content? = n.content?) ∧
    (∀ offset ≤ maxOffset, ∀ engine engine' : Nat → Option Nat,
      (m.firstChildForByte offset engine').map (fun _ => ())
        = (n.firstChildForByte offset engine).map fun _ => ()) ∧
    ∀ moves : List Move,
      (Cursor.ofNode m).map (fun c => (c.follow moves).snapshot)
        = (Cursor.ofNode n).map (fun c => (c.follow moves).snapshot) ∧
      (Cursor.ofNode m).map (fun c => (c.follow moves).outline?.map (·.1))
        = (Cursor.ofNode n).map (fun c => (c.follow moves).outline?.map (·.1)) := by
  intro n m
  have hm : m = n.twin u := Node.ofIndex_relabel Label.widen h.shape index
  have hn : n.tree.Twins s u := h
  refine ⟨?_, ?_, ?_⟩
  · rw [hm]
    exact ⟨Node.startByte_twin hn, Node.endByte_twin hn, Node.startPoint_twin hn,
      Node.endPoint_twin hn, Node.range_twin hn, Node.content?_twin hn hs⟩
  · intro offset ho engine engine'
    have hlabel : ∀ label, (n.twin u).label? = some label →
        label.startByte ≤ maxOffset ∧ label.endByte ≤ maxOffset := by
      intro label hl
      obtain ⟨l, hmem, rfl⟩ := Node.label?_ofIndex (hm ▸ hl)
      exact hwords l hmem
    rw [Node.map_firstChildForByte, Node.map_firstChildForByte, hm,
      Node.checkOffset_twin hn hlabel ho]
    cases n.checkOffset offset with
    | error fault => rfl
    | ok native => rfl
  · intro moves
    rw [hm, Cursor.ofNode_relabel]
    cases hc : Cursor.ofNode n with
    | error fault => exact ⟨rfl, rfl⟩
    | ok c =>
      obtain ⟨l, -, hstart⟩ := Cursor.ofNode_eq_ok hc
      have hwalk : (c.follow moves).tree.Twins s u := by
        rw [hstart, ((Cursor.walksBelow_start n.tree l).follow moves).tree_eq]
        exact hn
      constructor
      · show Except.ok ((c.twin u).follow moves).snapshot = _
        rw [Cursor.follow_relabel, Cursor.snapshot_twin hwalk hs]
        rfl
      · show Except.ok (((c.twin u).follow moves).outline?.map (·.1)) = _
        rw [Cursor.follow_relabel, Cursor.outline?_twin hwalk hs]
        rfl

/-- The small tree over the same text in UTF-16. -/
def Sample.wideTree : Tree :=
  ⟨1, statement.relabel Label.widen, .encode "a+b;" .utf16, .javascript⟩

/-- The sum in both encodings: `a+b`, and no offset beyond its end, not even the largest word. -/
theorem Tree.twins_answer_alike_sum :
    let n := Node.ofIndex Sample.tree (some 1)
    let m := Node.ofIndex Sample.wideTree (some 1)
    Text.IsAscii "a+b;".toList ∧ Twins "a+b;" Sample.tree Sample.wideTree ∧
    (∀ l ∈ (Location.root Sample.wideTree.shape).preorder,
      l.label.startByte ≤ maxOffset ∧ l.label.endByte ≤ maxOffset) ∧
    m.range = n.range ∧ m.content? = some "a+b" ∧
    (m.firstChildForByte maxOffset fun _ => none).map (fun _ => ())
      = .error (.offsetOutOfRange maxOffset 0 3) := by
  have hs : Text.IsAscii "a+b;".toList := by decide
  have ht : Twins "a+b;" Sample.tree Sample.wideTree := ⟨rfl, rfl, rfl⟩
  have hw : ∀ l ∈ (Location.root Sample.wideTree.shape).preorder,
      l.label.startByte ≤ maxOffset ∧ l.label.endByte ≤ maxOffset := by decide
  obtain ⟨⟨-, -, -, -, hrange, hcontent⟩, hoffset, -⟩ := twins_answer_alike hs ht hw (some 1)
  refine ⟨hs, ht, hw, hrange, hcontent.trans (by decide), ?_⟩
  exact (hoffset maxOffset (Nat.le_refl _) (fun _ => none) fun _ => none).trans rfl

end SyntaxView
