import SyntaxView.Proofs.CharacterCodings

/-!
# The text of a range of a source

Whatever range a source is asked for, there is an answer, and it can be told from the characters of
its text and the units they take, without the encoding: `Source.text_encode`.  For a range that
starts and ends at characters this is the text between them.

A source is kept in one of two encodings, which have units of different types.  `Encoding.coding`
chooses the type along with the encoding, so that all that follows is said of both at once; only
the three lemmas at the start look at the encoding.
-/

namespace SyntaxView

open Text

/-! ### Encodings -/

namespace Encoding

/-- The number of code units of a character. -/
def width : Encoding → Char → Nat
  | utf8, c => c.utf8Size
  | utf16, c => if c.toNat < 0x10000 then 1 else 2

/-- The code units of an encoding. -/
def CodeUnit : Encoding → Type
  | utf8 => UInt8
  | utf16 => UInt16

/-- How characters are encoded and decoded. -/
def coding : (e : Encoding) → LossyCoding e.CodeUnit
  | utf8 => Utf8.coding
  | utf16 => Utf16.coding

theorem width_coding (e : Encoding) : e.coding.width = e.width := by
  funext c
  cases e with
  | utf8 => exact String.length_utf8EncodeChar c
  | utf16 =>
    show (Utf16.encodeChar c).length = if c.toNat < 0x10000 then 1 else 2
    by_cases h : c.toNat < 0x10000
    · rw [if_pos h, (Utf16.encodeChar_one h).1]
      rfl
    · obtain ⟨u, v, huv, -⟩ := Utf16.encodeChar_two (Nat.le_of_not_lt h)
      rw [if_neg h, huv]
      rfl

end Encoding

namespace Source

theorem nativeLength_encode (s : String) (e : Encoding) :
    (encode s e).nativeLength = e.ratio * (e.coding.encode s.toList).length := by
  cases e with
  | utf8 => exact (Utf8.length_encode s.toList).symm.trans (Nat.one_mul _).symm
  | utf16 => rfl

theorem text_eq_decode (s : String) (e : Encoding) (start stop : Nat) :
    (encode s e).text start stop
      = .ofList (e.coding.decode
          (clamp (e.coding.encode s.toList) (start / e.ratio) (stop / e.ratio))) := by
  cases e with
  | utf8 =>
    show _ = String.ofList (Utf8.decodeLossy (clamp (Utf8.encode s.toList) (start / 1) (stop / 1)))
    rw [Nat.div_one, Nat.div_one, encode, text_utf8]
  | utf16 => exact text_utf16 start stop (Utf16.encode s.toList)

/-! ### Cuts -/

section

variable {α : Type}

/-- A slice is what lies between two places of the list, and there is one just if these are places
of the list and the range between them is not reversed. -/
theorem slice?_eq_some_iff {xs cut : List α} {first last : Nat} :
    slice? xs first last = some cut ↔
      (first ≤ last ∧ last ≤ xs.length) ∧ xs.take first ++ cut ++ xs.drop last = xs := by
  unfold slice?
  by_cases hbounds : first ≤ last ∧ last ≤ xs.length
  · have hwhole : xs.take first ++ (xs.take last).drop first ++ xs.drop last = xs := by
      have htake : xs.take first = (xs.take last).take first := by
        rw [List.take_take, Nat.min_eq_left hbounds.1]
      rw [htake, List.take_append_drop, List.take_append_drop]
    rw [if_pos hbounds, Option.some.injEq]
    constructor
    · rintro rfl
      exact ⟨hbounds, hwhole⟩
    · rintro ⟨-, hcut⟩
      -- both cuts lie between the same two parts
      have hsame := hwhole.trans hcut.symm
      rw [List.append_left_inj, List.append_right_inj] at hsame
      exact hsame
  · rw [if_neg hbounds]
    simp [hbounds]

theorem clamp_of_le {start stop : Nat} (h : stop ≤ start) (xs : List α) :
    clamp xs start stop = [] := by
  rw [clamp_eq]
  refine List.drop_eq_nil_of_le ?_
  rw [List.length_take]
  omega

theorem clamp_append (xs ys zs : List α) :
    clamp (xs ++ ys ++ zs) xs.length (xs.length + ys.length) = ys := by
  have hstop : min (xs.length + ys.length) (xs ++ ys ++ zs).length = (xs ++ ys).length := by
    simp only [List.length_append]
    omega
  have hstart : min xs.length (xs ++ ys).length = xs.length := by
    rw [List.length_append]
    omega
  rw [clamp_eq, hstop, hstart, List.take_left, List.drop_left]

end

/-- The text between two places of a text that lie between characters. -/
theorem text_encode_append (a b c : String) (e : Encoding) :
    (encode (a ++ b ++ c) e).text (encode a e).nativeLength (encode (a ++ b) e).nativeLength
      = b := by
  rw [text_eq_decode, nativeLength_encode, nativeLength_encode,
    Nat.mul_div_cancel_left _ e.ratio_pos, Nat.mul_div_cancel_left _ e.ratio_pos,
    String.toList_append, String.toList_append, LossyCoding.encode_append,
    LossyCoding.encode_append, List.length_append, clamp_append, LossyCoding.decode_encode,
    String.ofList_toList]

/-- **The text of a range**, in both encodings.  The ends of the range are brought to whole code
units, and into the text; the slice between them is then within bounds, so there is a text whatever
the range.  It has a replacement character for each unit of the slice that belongs to a character
which starts before it, then the characters that lie in the slice, and then one replacement
character if a character starts in the slice and ends beyond it (`cutText`).  A reversed range has
the empty text, the range of all bytes has the whole text, and a range from the end of one part of
the text to the end of the next has the text of this part. -/
theorem text_encode (s : String) (e : Encoding) (start stop : Nat) :
    let source := encode s e
    let length := source.nativeLength / e.ratio
    let last := min (stop / e.ratio) length
    let first := min (start / e.ratio) last
    (∀ {α : Type} (units : List α), units.length = length →
      ∃ cut, clamp? units (start / e.ratio) (stop / e.ratio) = some cut ∧
        slice? units first last = some cut ∧
        units.take first ++ cut ++ units.drop last = units) ∧
    source.text? start stop = some (.ofList (cutText (placements e.width 0 s.toList) first last)) ∧
    (stop ≤ start → source.text? start stop = some "") ∧
    source.text? 0 source.nativeLength = some s ∧
    ∀ a b c, s = a ++ b ++ c →
      source.text? (encode a e).nativeLength (encode (a ++ b) e).nativeLength = some b := by
  intro source length last first
  have hlength : (e.coding.encode s.toList).length = length := by
    show _ = (encode s e).nativeLength / e.ratio
    rw [nativeLength_encode, Nat.mul_div_cancel_left _ e.ratio_pos]
  have hle : first ≤ last := Nat.min_le_right _ _
  refine ⟨?_, ?_, ?_, ?_, ?_⟩
  · intro α units hunits
    have hclamp : clamp? units (start / e.ratio) (stop / e.ratio) = slice? units first last := by
      rw [clamp?, hunits]
    have hcut := clamp?_eq units (start / e.ratio) (stop / e.ratio)
    have hslice := hclamp.symm.trans hcut
    exact ⟨_, hcut, hslice, (slice?_eq_some_iff.1 hslice).2⟩
  · have hcut := e.coding.decode_cut s.toList 0 hle
    rw [e.width_coding, Nat.sub_zero, Nat.sub_zero] at hcut
    rw [text?_eq_some, text_eq_decode, clamp_eq, hlength, hcut]
  · intro hreversed
    rw [text?_eq_some, text_eq_decode, clamp_of_le (Nat.div_le_div_right hreversed),
      LossyCoding.decode_nil]
  · -- the whole text is the part between two empty ones
    have hzero : (encode "" e).nativeLength = 0 := by cases e <;> rfl
    have hwhole := text_encode_append "" s "" e
    rw [String.empty_append, String.append_empty, hzero] at hwhole
    rw [text?_eq_some, hwhole]
  · rintro a b c rfl
    rw [text?_eq_some, text_encode_append]

/-- A character of four bytes, or two units, that has lost its start, its end, or all but one unit
in the middle of a range with odd ends; and a range that is reversed.  The first of these ranges
ends beyond the text and the last one is reversed, so that neither could be cut out as it is. -/
theorem text_encode_grin :
    (slice? (Utf8.encode "a😀b".toList) 3 9 = none ∧
      (encode "a😀b" .utf8).text? 3 9 = some "\ufffd\ufffdb") ∧
    (encode "a😀b" .utf8).text? 0 4 = some "a\ufffd" ∧
    (encode "a😀b" .utf16).text? 5 7 = some "\ufffd" ∧
    (5 ≤ 7 ∧ slice? (Utf16.encode "a😀b".toList) 3 2 = none ∧
      (encode "a😀b" .utf16).text? 7 5 = some "") := by
  refine ⟨⟨by decide, ?_⟩, ?_, ?_, by decide, by decide, ?_⟩
  · exact (text_encode "a😀b" .utf8 3 9).2.1.trans (by decide +kernel)
  · exact (text_encode "a😀b" .utf8 0 4).2.1.trans (by decide +kernel)
  · exact (text_encode "a😀b" .utf16 5 7).2.1.trans (by decide +kernel)
  · exact (text_encode "a😀b" .utf16 7 5).2.2.1 (by decide)

end Source

end SyntaxView
