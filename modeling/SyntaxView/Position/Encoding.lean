import SyntaxView.Position.Point

/-!
# Encodings and their units

A caller counts in code units of the encoding it has chosen; the engine counts in bytes of the
encoded text, its *native* unit.  One code unit is one byte in UTF-8 and two in UTF-16, so an
offset is multiplied by this ratio on its way to the engine and divided by it, rounding down, on
its way back.  Offsets are 64-bit words: a product that does not fit stops at the largest word.
Columns scale like offsets and rows never change.
-/

namespace SyntaxView

/-- The largest offset, that of a 64-bit word. -/
def maxOffset : Nat := 0xFFFFFFFFFFFFFFFF

/-- The encoding a text is kept in. -/
inductive Encoding where
  | utf8
  | utf16
  deriving Repr, DecidableEq, Inhabited

namespace Encoding

/-- The name under which an encoding is shown. -/
def name : Encoding → String
  | utf8 => "Utf8"
  | utf16 => "Utf16"

/-- The spellings an encoding is accepted under, case and all. -/
def spellings : List (String × Encoding) :=
  [("utf-8", utf8), ("utf8", utf8), ("utf-16", utf16), ("utf16", utf16)]

/-- The encoding of that spelling. -/
def ofSpelling? (s : String) : Option Encoding := spellings.lookup s

/-- The number of bytes of one code unit. -/
def ratio : Encoding → Nat
  | utf8 => 1
  | utf16 => 2

variable (e : Encoding)

/-- A caller's offset in the engine's unit. -/
def toNative (offset : Nat) : Nat := min (offset * e.ratio) maxOffset

/-- An offset of the engine in the caller's unit. -/
def fromNative (offset : Nat) : Nat := offset / e.ratio

/-- A caller's point in the engine's unit. -/
def pointToNative (p : Point) : Point := ⟨p.row, e.toNative p.column⟩

/-- A point of the engine in the caller's unit. -/
def pointFromNative (p : Point) : Point := ⟨p.row, e.fromNative p.column⟩

/-- A range of the engine in the caller's unit. -/
def rangeFromNative (r : Range) : Range where
  startByte := e.fromNative r.startByte
  endByte := e.fromNative r.endByte
  startPoint := e.pointFromNative r.startPoint
  endPoint := e.pointFromNative r.endPoint

/-- A caller's edit in the engine's unit. -/
def editToNative (d : Edit) : Edit where
  startByte := e.toNative d.startByte
  oldEndByte := e.toNative d.oldEndByte
  newEndByte := e.toNative d.newEndByte
  startPoint := e.pointToNative d.startPoint
  oldEndPoint := e.pointToNative d.oldEndPoint
  newEndPoint := e.pointToNative d.newEndPoint

/-- A code unit has at least one byte. -/
theorem ratio_pos : 0 < e.ratio := by cases e <;> decide

end Encoding

end SyntaxView
