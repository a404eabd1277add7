import SyntaxView.Text.Utf8
import SyntaxView.Text.Utf16
import SyntaxView.Position.Encoding

/-!
# Source texts

A source text is kept in one encoding and cut by ranges of bytes of that encoding.  The engine
gives such ranges, and nothing about them is promised: they may end beyond the text, end before
they start, split a character, or split a code unit.  A cut therefore first brings the range into
the text and then decodes with replacement characters.
-/

namespace SyntaxView

/-- A text in the encoding it is kept in. -/
inductive Source where
  | utf8 (text : String)
  | utf16 (units : List UInt16)
  deriving Repr, DecidableEq

namespace Source

/-- The text, put into the encoding. -/
def encode (text : String) : Encoding → Source
  | .utf8 => .utf8 text
  | .utf16 => .utf16 (Text.Utf16.encode text.toList)

/-- The encoding the text is kept in. -/
def encoding : Source → Encoding
  | .utf8 _ => .utf8
  | .utf16 _ => .utf16

/-- The number of bytes of the encoded text. -/
def nativeLength : Source → Nat
  | .utf8 text => Text.Utf8.size text.toList
  | .utf16 units => 2 * units.length

/-! ### Cuts -/

section

variable {α : Type} (xs : List α) (start stop : Nat)

/-- The elements from `start` up to `stop`.  There are none to give if the range ends before it
starts or beyond the list. -/
def slice? : Option (List α) :=
  if start ≤ stop ∧ stop ≤ xs.length then some ((xs.take stop).drop start) else none

/-- The elements of a range that need not lie in the list.  The end is first brought into the list
and the start then before the end, so a range that is reversed or lies beyond the list cuts out
nothing. -/
def clamp? : Option (List α) :=
  let stop := min stop xs.length
  let start := min start stop
  slice? xs start stop

/-- **A range that has been brought into the list can be cut out**, whatever it was. -/
theorem clamp?_eq :
    clamp? xs start stop
      = some ((xs.take (min stop xs.length)).drop (min start (min stop xs.length))) := by
  have hbounds : min start (min stop xs.length) ≤ min stop xs.length ∧
      min stop xs.length ≤ xs.length := ⟨Nat.min_le_right _ _, Nat.min_le_right _ _⟩
  rw [clamp?, slice?, if_pos hbounds]

theorem isSome_clamp? : (clamp? xs start stop).isSome = true := by
  rw [clamp?_eq]
  rfl

/-- The elements that are cut out. -/
def clamp : List α := (clamp? xs start stop).get (isSome_clamp? xs start stop)

theorem clamp_eq :
    clamp xs start stop
      = (xs.take (min stop xs.length)).drop (min start (min stop xs.length)) := by
  simp only [clamp, clamp?_eq, Option.get_some]

end

/-! ### Ranges -/

variable (source : Source) (start stop : Nat)

/-- The text of a range of bytes, with a replacement character for each part of it that is no
whole character. -/
def text? : Option String :=
  match source with
  | .utf8 text =>
    (clamp? (Text.Utf8.encode text.toList) start stop).map fun bytes =>
      .ofList (Text.Utf8.decodeLossy bytes)
  | .utf16 units =>
    (clamp? units (start / 2) (stop / 2)).map fun units => .ofList (Text.Utf16.decodeLossy units)

theorem isSome_text? : (source.text? start stop).isSome = true := by
  cases source with
  | utf8 text => rw [text?, Option.isSome_map, isSome_clamp?]
  | utf16 units => rw [text?, Option.isSome_map, isSome_clamp?]

/-- The text of a range of bytes, which every range has. -/
def text : String := (source.text? start stop).get (source.isSome_text? start stop)

/-- The text of a range as UTF-8 bytes: the bytes themselves where the text is kept in UTF-8,
and the encoded text otherwise. -/
def utf8Bytes? : Option (List UInt8) :=
  match source with
  | .utf8 text => clamp? (Text.Utf8.encode text.toList) start stop
  | .utf16 _ => (source.text? start stop).map fun text => Text.Utf8.encode text.toList

theorem isSome_utf8Bytes? : (source.utf8Bytes? start stop).isSome = true := by
  cases source with
  | utf8 text => exact isSome_clamp? _ start stop
  | utf16 units => rw [utf8Bytes?, Option.isSome_map, isSome_text?]

/-- The text of a range as UTF-8 bytes, which every range has. -/
def utf8Bytes : List UInt8 :=
  (source.utf8Bytes? start stop).get (source.isSome_utf8Bytes? start stop)

/-- The whole text. -/
def whole : String := source.text 0 source.nativeLength

theorem text?_eq_some : source.text? start stop = some (source.text start stop) :=
  (Option.some_get _).symm

theorem text_utf8 (s : String) :
    (Source.utf8 s).text start stop
      = .ofList (Text.Utf8.decodeLossy (clamp (Text.Utf8.encode s.toList) start stop)) :=
  Option.get_map

theorem text_utf16 (units : List UInt16) :
    (Source.utf16 units).text start stop
      = .ofList (Text.Utf16.decodeLossy (clamp units (start / 2) (stop / 2))) :=
  Option.get_map

theorem utf8Bytes_utf8 (s : String) :
    (Source.utf8 s).utf8Bytes start stop = clamp (Text.Utf8.encode s.toList) start stop := rfl

theorem utf8Bytes_utf16 (units : List UInt16) :
    (Source.utf16 units).utf8Bytes start stop
      = Text.Utf8.encode ((Source.utf16 units).text start stop).toList :=
  Option.get_map

@[simp]
theorem encoding_encode (text : String) (e : Encoding) : (encode text e).encoding = e := by
  cases e <;> rfl

end Source

end SyntaxView
