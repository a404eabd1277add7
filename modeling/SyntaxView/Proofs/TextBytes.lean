import SyntaxView.Proofs.ByteCuts
import SyntaxView.Proofs.SourceText

/-!
# The text of a range and its bytes

A range of a source is shown in two ways, as a text and as the bytes of a text in UTF-8.  A source
that is kept in UTF-8 gives its own bytes, as they are cut, while its text has replacement
characters where the cut goes through a character.  So the two need not agree, and this is when they
do: `Source.utf8Bytes_eq_text`.

Where they agree, the bytes that are cut out are those of a text, and where they are, they agree, for
the bytes of a text are decoded to this text.  Hence the question is which cuts of the bytes of a
text are themselves the bytes of a text, and UTF-8 is made so that these are the cuts between
characters (`isBoundary_of_cut`).  Where such a cut starts can be told from its first byte alone, for
the first byte of a character never looks like a later one (`isBoundary_of_drop`).  From there on,
decoding says which characters the cut consists of, and so where it ends
(`exists_of_encode_append`).
-/

namespace SyntaxView

open Text

/-! ### Cuts of the bytes of a text -/

namespace Text.Utf8

theorem encode_append (s t : List Char) : encode (s ++ t) = encode s ++ encode t :=
  List.flatMap_append

theorem encode_cons (c : Char) (s : List Char) :
    encode (c :: s) = String.utf8EncodeChar c ++ encode s := List.flatMap_cons

theorem decodeLossy_encode (s : List Char) : decodeLossy (encode s) = s := coding.decode_encode s

theorem decodeLossy_encode_append (s : List Char) (rest : List UInt8) :
    decodeLossy (encode s ++ rest) = s ++ decodeLossy rest := by
  induction s with
  | nil => rfl
  | cons c s ih =>
    rw [encode_cons, List.append_assoc, decodeLossy_append, ih, List.cons_append]

/-- The bytes of a text at the front of those of another one are those of its first characters. -/
theorem exists_of_encode_append {s t : List Char} {rest : List UInt8}
    (h : encode s = encode t ++ rest) : ∃ u, s = t ++ u := by
  refine ⟨decodeLossy rest, ?_⟩
  rw [← decodeLossy_encode_append, ← h, decodeLossy_encode]

/-- A byte that is not the first one of a character. -/
def IsContinuation (b : UInt8) : Prop := 0x80 ≤ b.toNat ∧ b.toNat < 0xC0

/-- The first byte of a character is none of the later ones.  The machine says something when it
reads a later byte where a character has to start, and nothing but a whole character when it reads
the bytes of a character. -/
theorem not_isContinuation_head {c : Char} {b : UInt8} {bytes : List UInt8}
    (h : String.utf8EncodeChar c = b :: bytes) : ¬ IsContinuation b := by
  rintro ⟨hlow, hhigh⟩
  have hstep : step .none b = ([none], .none) := start_continuation hlow hhigh
  have hcompletes := completes_utf8EncodeChar c
  rw [h] at hcompletes
  cases hcompletes with
  | last hlast => cases hstep.symm.trans hlast
  | more hmore => cases hstep.symm.trans hmore

/-- A place in the bytes of a text is a boundary if the byte after it starts a character. -/
theorem isBoundary_of_drop {s : List Char} {n : Nat} {b : UInt8} {rest : List UInt8}
    (h : (encode s).drop n = b :: rest) (hb : ¬ IsContinuation b) : IsBoundary n s := by
  induction s generalizing n with
  | nil =>
    rw [encode, List.flatMap_nil, List.drop_nil] at h
    cases h
  | cons c s ih =>
    by_cases hzero : n = 0
    · exact ⟨[], c :: s, rfl, hzero.symm⟩
    · rw [encode_cons, List.drop_append] at h
      by_cases hn : n < (String.utf8EncodeChar c).length
      · -- the byte would be a later byte of the first character
        have hne : (String.utf8EncodeChar c).drop n ≠ [] := by
          intro hnil
          have := List.drop_eq_nil_iff.mp hnil
          omega
        obtain ⟨b', bytes, hbytes⟩ := List.exists_cons_of_ne_nil hne
        rw [hbytes, List.cons_append] at h
        have hhead : b' = b := (List.cons.inj h).1
        have hmem : b ∈ (String.utf8EncodeChar c).tail := by
          have hdrop : b ∈ (String.utf8EncodeChar c).drop n := by
            rw [hbytes, hhead]
            exact List.mem_cons_self
          obtain ⟨k, rfl⟩ : ∃ k, n = k + 1 := ⟨n - 1, by omega⟩
          rw [Nat.add_comm, ← List.drop_drop, List.drop_one] at hdrop
          exact List.mem_of_mem_drop hdrop
        exact absurd (toNat_of_mem_tail hmem) hb
      · have hle : (String.utf8EncodeChar c).length ≤ n := Nat.le_of_not_lt hn
        rw [List.drop_of_length_le hle, List.nil_append] at h
        obtain ⟨u, v, rfl, hu⟩ := ih h
        refine ⟨c :: u, v, rfl, ?_⟩
        rw [String.length_utf8EncodeChar] at hu hle
        rw [size, hu]
        omega

/-- **Cuts that are texts.**  If something is cut out of the bytes of a text, and it is the bytes of
a text, then the cut was made between characters. -/
theorem isBoundary_of_cut {s t : List Char} {first last : Nat} (hlt : first < last)
    (hlast : last ≤ size s) (h : ((encode s).take last).drop first = encode t) :
    IsBoundary first s ∧ IsBoundary last s := by
  -- the cut has a byte, so the text has a character
  have hlength : (encode t).length = last - first := by
    rw [← h, List.length_drop, List.length_take, length_encode]
    omega
  have ht : t ≠ [] := by
    rintro rfl
    have : (encode []).length = 0 := rfl
    omega
  obtain ⟨c, t', htc⟩ := List.exists_cons_of_ne_nil ht
  obtain ⟨b, bytes, hbytes⟩ := List.exists_cons_of_ne_nil (utf8EncodeChar_ne_nil c)
  have hb : ¬ IsContinuation b := not_isContinuation_head hbytes
  -- what follows the start of the cut is the cut and the bytes after it
  have hdrop : (encode s).drop first = encode t ++ (encode s).drop last := by
    calc (encode s).drop first
        = ((encode s).take last ++ (encode s).drop last).drop first := by
          rw [List.take_append_drop]
      _ = encode t ++ (encode s).drop last := by
          rw [List.drop_append, h, List.length_take, length_encode, Nat.min_eq_left hlast,
            Nat.sub_eq_zero_of_le (Nat.le_of_lt hlt), List.drop_zero]
  have hfirst : IsBoundary first s := by
    rw [htc, encode_cons, hbytes, List.cons_append, List.cons_append] at hdrop
    exact isBoundary_of_drop hdrop hb
  refine ⟨hfirst, ?_⟩
  obtain ⟨u, r, rfl, hu⟩ := hfirst
  rw [encode_append, ← hu, ← length_encode u, List.drop_left, ← encode_append] at hdrop
  obtain ⟨w, rfl⟩ := exists_of_encode_append hdrop
  refine ⟨u ++ t, w, (List.append_assoc u t w).symm, ?_⟩
  rw [size_append, hu, ← length_encode t, hlength]
  omega

end Text.Utf8

/-! ### Ranges that cover whole characters -/

namespace Source

/-- Where a range ends, in code units, once it is brought into the text. -/
def lastUnit (s : String) (e : Encoding) (stop : Nat) : Nat :=
  min (stop / e.ratio) ((encode s e).nativeLength / e.ratio)

/-- Where a range starts, in code units, once it is brought into the text and before its end. -/
def firstUnit (s : String) (e : Encoding) (start stop : Nat) : Nat :=
  min (start / e.ratio) (lastUnit s e stop)

/-- The characters in the range are those of `b`, and the range has no part of any other character.
It starts and ends where they do, unless there is nothing in it. -/
def Covers (s : String) (e : Encoding) (start stop : Nat) (b : String) : Prop :=
  firstUnit s e start stop = lastUnit s e stop ∧ b = "" ∨
    ∃ a c, s = a ++ b ++ c ∧
      firstUnit s e start stop = (encode a e).nativeLength / e.ratio ∧
      lastUnit s e stop = (encode (a ++ b) e).nativeLength / e.ratio

variable {s : String} {e : Encoding} {start stop : Nat} {b : String}

theorem nativeLength_div_ratio (s : String) (e : Encoding) :
    (encode s e).nativeLength / e.ratio = (e.coding.encode s.toList).length := by
  rw [nativeLength_encode, Nat.mul_div_cancel_left _ e.ratio_pos]

theorem clamp_eq_drop_take (s : String) (e : Encoding) (start stop : Nat) :
    clamp (e.coding.encode s.toList) (start / e.ratio) (stop / e.ratio)
      = ((e.coding.encode s.toList).take (lastUnit s e stop)).drop (firstUnit s e start stop) := by
  unfold firstUnit lastUnit
  rw [clamp_eq, nativeLength_div_ratio]

/-- The units of the range are those of its characters. -/
theorem Covers.clamp_eq (h : Covers s e start stop b) :
    clamp (e.coding.encode s.toList) (start / e.ratio) (stop / e.ratio)
      = e.coding.encode b.toList := by
  rw [clamp_eq_drop_take]
  rcases h with ⟨hempty, rfl⟩ | ⟨a, c, rfl, hfirst, hlast⟩
  · rw [hempty, String.toList_empty]
    refine List.drop_eq_nil_of_le ?_
    rw [List.length_take]
    exact Nat.min_le_left _ _
  · have happend : ∀ t u : String, e.coding.encode (t ++ u).toList
        = e.coding.encode t.toList ++ e.coding.encode u.toList := by
      intro t u
      rw [String.toList_append, LossyCoding.encode_append]
    rw [hfirst, hlast, nativeLength_div_ratio, nativeLength_div_ratio, happend (a ++ b) c,
      List.take_left, happend, List.drop_left]

theorem Covers.text_eq (h : Covers s e start stop b) : (encode s e).text start stop = b := by
  rw [text_eq_decode, h.clamp_eq, LossyCoding.decode_encode, String.ofList_toList]

/-- The bytes do not depend on the encoding in which the text is kept. -/
theorem Covers.utf8Bytes_eq (h : Covers s e start stop b) :
    (encode s e).utf8Bytes start stop = Utf8.encode b.toList := by
  cases e with
  | utf8 =>
    have hclamp := h.clamp_eq
    rw [Encoding.ratio, Nat.div_one, Nat.div_one] at hclamp
    rw [encode, utf8Bytes_utf8]
    exact hclamp
  | utf16 =>
    have htext := h.text_eq
    rw [encode] at htext ⊢
    rw [utf8Bytes_utf16, htext]

/-- A range of a text in UTF-8 that has nothing in it or lies between boundaries. -/
theorem exists_covers
    (h : firstUnit s .utf8 start stop = lastUnit s .utf8 stop ∨
      Utf8.IsBoundary (firstUnit s .utf8 start stop) s.toList ∧
        Utf8.IsBoundary (lastUnit s .utf8 stop) s.toList) :
    ∃ b, Covers s .utf8 start stop b := by
  rcases h with hempty | ⟨hfirst, hlast⟩
  · exact ⟨"", .inl ⟨hempty, rfl⟩⟩
  · have hle : firstUnit s .utf8 start stop ≤ lastUnit s .utf8 stop := Nat.min_le_right _ _
    obtain ⟨u, v, w, hs, hu, hv⟩ := Utf8.exists_split hfirst hlast hle
    -- sizes of texts, as the units of a range are counted
    have hsize : ∀ t : List Char,
        (encode (String.ofList t) .utf8).nativeLength / Encoding.utf8.ratio = Utf8.size t := by
      intro t
      rw [Encoding.ratio, Nat.div_one, encode, nativeLength, String.toList_ofList]
    refine ⟨.ofList v, .inr ⟨.ofList u, .ofList w, ?_, ?_, ?_⟩⟩
    · rw [← String.ofList_append, ← String.ofList_append, List.append_assoc, ← hs,
        String.ofList_toList]
    · rw [hsize, hu]
    · rw [← String.ofList_append, hsize, Utf8.size_append, hv]

/-- A text in UTF-8 and its bytes agree on a range just if the bytes are those of a text, which they
are just if the range does not cut through a character. -/
theorem utf8Bytes_eq_iff (s : String) (start stop : Nat) :
    (encode s .utf8).utf8Bytes start stop
        = Utf8.encode ((encode s .utf8).text start stop).toList ↔
      firstUnit s .utf8 start stop = lastUnit s .utf8 stop ∨
        Utf8.IsBoundary (firstUnit s .utf8 start stop) s.toList ∧
          Utf8.IsBoundary (lastUnit s .utf8 stop) s.toList := by
  constructor
  · intro h
    have hcut : (encode s .utf8).utf8Bytes start stop
        = ((Utf8.encode s.toList).take (lastUnit s .utf8 stop)).drop
            (firstUnit s .utf8 start stop) := by
      have hclamp := clamp_eq_drop_take s .utf8 start stop
      rw [Encoding.ratio, Nat.div_one, Nat.div_one] at hclamp
      exact hclamp
    have hlast : lastUnit s .utf8 stop ≤ Utf8.size s.toList := by
      have hlength : (encode s .utf8).nativeLength / Encoding.utf8.ratio = Utf8.size s.toList :=
        Nat.div_one _
      rw [← hlength]
      exact Nat.min_le_right _ _
    rcases Nat.lt_or_eq_of_le (Nat.min_le_right _ _ :
      firstUnit s .utf8 start stop ≤ lastUnit s .utf8 stop) with hlt | hempty
    · exact .inr (Utf8.isBoundary_of_cut hlt hlast (hcut.symm.trans h))
    · exact .inl hempty
  · intro h
    obtain ⟨b, hb⟩ := exists_covers h
    rw [hb.utf8Bytes_eq, hb.text_eq]

/-- **The text of a range and its bytes.**  Of a source that is kept in UTF-16 the bytes of a range
are those of its text, whatever the range.  Of one that is kept in UTF-8 they are if and only if the
range, brought into the text, is empty or starts and ends between characters.  Of ranges that cover
the same characters, none of them in part, the bytes are those of these characters in both
encodings, and so they are the same. -/
theorem utf8Bytes_eq_text (s : String) :
    (∀ start stop, (encode s .utf16).utf8Bytes start stop
      = Utf8.encode ((encode s .utf16).text start stop).toList) ∧
    (∀ start stop,
      let last := min stop (encode s .utf8).nativeLength
      let first := min start last
      (encode s .utf8).utf8Bytes start stop
          = Utf8.encode ((encode s .utf8).text start stop).toList ↔
        first = last ∨ Utf8.IsBoundary first s.toList ∧ Utf8.IsBoundary last s.toList) ∧
    ∀ b start stop start' stop', Covers s .utf8 start stop b → Covers s .utf16 start' stop' b →
      (encode s .utf8).utf8Bytes start stop = (encode s .utf16).utf8Bytes start' stop' ∧
      (encode s .utf8).utf8Bytes start stop = Utf8.encode b.toList := by
  refine ⟨fun start stop => utf8Bytes_utf16 start stop _, fun start stop => ?_, ?_⟩
  · have hiff := utf8Bytes_eq_iff s start stop
    unfold firstUnit lastUnit at hiff
    rw [Encoding.ratio, Nat.div_one, Nat.div_one, Nat.div_one] at hiff
    exact hiff
  · intro b start stop start' stop' h h'
    have hbytes := h.utf8Bytes_eq
    exact ⟨hbytes.trans h'.utf8Bytes_eq.symm, hbytes⟩

/-- A character of four bytes or two units: two ranges that cover it, one of them with odd ends; and
one that cuts it, of which the bytes are cut as well while the text has a replacement character. -/
theorem utf8Bytes_eq_text_grin :
    Covers "a😀b" .utf8 1 5 "😀" ∧ Covers "a😀b" .utf16 3 7 "😀" ∧
    (encode "a😀b" .utf8).utf8Bytes 1 5 = (encode "a😀b" .utf16).utf8Bytes 3 7 ∧
    (encode "a😀b" .utf8).utf8Bytes 1 5 = [0xF0, 0x9F, 0x98, 0x80] ∧
    (encode "a😀b" .utf8).utf8Bytes 0 4
      ≠ Utf8.encode ((encode "a😀b" .utf8).text 0 4).toList := by
  have h : Covers "a😀b" .utf8 1 5 "😀" := .inr ⟨"a", "b", rfl, rfl, rfl⟩
  have h' : Covers "a😀b" .utf16 3 7 "😀" := .inr ⟨"a", "b", rfl, rfl, rfl⟩
  obtain ⟨-, hiff, hcovers⟩ := utf8Bytes_eq_text "a😀b"
  obtain ⟨hsame, hbytes⟩ := hcovers _ _ _ _ _ h h'
  refine ⟨h, h', hsame, hbytes, fun hcut => ?_⟩
  have hboundaries := (hiff 0 4).1 hcut
  revert hboundaries
  decide

end Source

end SyntaxView
