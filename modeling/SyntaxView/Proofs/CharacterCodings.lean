import SyntaxView.Proofs.AsciiText
import SyntaxView.Proofs.LossyCoding

/-!
# The two encodings and their decoders

UTF-8 and UTF-16, each with its decoder, have the properties of a `LossyCoding`.

In UTF-8 the decoder is a machine that reads a byte at a time.  Through the bytes of a character it
says nothing until the last one, when it says the character (`completes_utf8EncodeChar`); so the
character is read whole whatever comes after it (`Completes.run_append`), and is still pending
wherever the bytes end before (`Completes.run_take`).  The ranges that the machine allows for the
second byte depend on the first one (`start_two`, `start_three`, `start_four`).  That the second
byte of a character is in its range is where it matters that characters are written in as few bytes
as possible, and that no character is a surrogate or above `U+10FFFF`.

In UTF-16 a character above `U+FFFF` is a pair of surrogates, and the halves of the pair are told
apart by their ranges.
-/

namespace SyntaxView.Text

/-! ### UTF-8 -/

namespace Utf8

/-- `Completes c p bs`: with `p` pending, the bytes `bs` are the rest of the character `c`. -/
inductive Completes (c : Char) : Pending → List UInt8 → Prop where
  | last {p : Pending} {b : UInt8} (h : step p b = ([some c], .none)) : Completes c p [b]
  | more {p : Pending} {b : UInt8} {owed low high value : Nat} {bs : List UInt8}
      (h : step p b = ([], .some owed low high value))
      (hbs : Completes c (.some owed low high value) bs) : Completes c p (b :: bs)

theorem Completes.run_append {c : Char} {p : Pending} {bs : List UInt8} (h : Completes c p bs)
    (rest : List UInt8) : run p (bs ++ rest) = some c :: run .none rest := by
  induction h with
  | last h =>
    rw [List.cons_append, run, h]
    rfl
  | more h _ ih =>
    rw [List.cons_append, run, h]
    exact ih

theorem Completes.run_take {c : Char} {p : Pending} {bs : List UInt8} (h : Completes c p bs)
    {n : Nat} (hpos : 0 < n) (hn : n < bs.length) : run p (bs.take n) = [none] := by
  induction h generalizing n with
  | last h =>
    rw [List.length_singleton] at hn
    omega
  | @more p b owed low high value bs h _ ih =>
    obtain ⟨k, rfl⟩ : ∃ k, n = k + 1 := ⟨n - 1, by omega⟩
    rw [List.take_succ_cons, run, h, List.nil_append]
    by_cases hk : k = 0
    · rw [hk]
      rfl
    · exact ih (Nat.pos_of_ne_zero hk) (Nat.lt_of_succ_lt_succ hn)

/-! First bytes. -/

theorem start_two {n : Nat} (hlow : 0xC2 ≤ n) (hhigh : n < 0xE0) :
    start (.ofNat n) = ([], .some 0 0x80 0xBF (n % 32)) := by
  have hall : ∀ n < 0xE0, 0xC2 ≤ n → start (.ofNat n) = ([], .some 0 0x80 0xBF (n % 32)) := by
    decide +kernel
  exact hall n hhigh hlow

theorem start_three {n : Nat} (hlow : 0xE0 ≤ n) (hhigh : n < 0xF0) :
    start (.ofNat n) = ([], .some 1 (if n = 0xE0 then 0xA0 else 0x80)
      (if n = 0xED then 0x9F else 0xBF) (n % 16)) := by
  have hall : ∀ n < 0xF0, 0xE0 ≤ n →
      start (.ofNat n) = ([], .some 1 (if n = 0xE0 then 0xA0 else 0x80)
        (if n = 0xED then 0x9F else 0xBF) (n % 16)) := by
    decide +kernel
  exact hall n hhigh hlow

theorem start_four {n : Nat} (hlow : 0xF0 ≤ n) (hhigh : n < 0xF5) :
    start (.ofNat n) = ([], .some 2 (if n = 0xF0 then 0x90 else 0x80)
      (if n = 0xF4 then 0x8F else 0xBF) (n % 8)) := by
  have hall : ∀ n < 0xF5, 0xF0 ≤ n →
      start (.ofNat n) = ([], .some 2 (if n = 0xF0 then 0x90 else 0x80)
        (if n = 0xF4 then 0x8F else 0xBF) (n % 8)) := by
    decide +kernel
  exact hall n hhigh hlow

theorem start_continuation {b : UInt8} (hlow : 0x80 ≤ b.toNat) (hhigh : b.toNat < 0xC0) :
    start b = ([none], .none) := by
  unfold start
  rw [if_neg (by omega), if_pos (by omega)]

/-! Further bytes. -/

theorem toNat_ofNat_byte {n : Nat} (h : n < 256) : (UInt8.ofNat n).toNat = n := by
  rw [UInt8.toNat_ofNat']
  omega

theorem step_more {owed low high value n : Nat} (hn : n < 256) (hlow : low ≤ n) (hhigh : n ≤ high) :
    step (.some (owed + 1) low high value) (.ofNat n)
      = ([], .some owed 0x80 0xBF (value * 64 + n % 64)) := by
  simp [step, toNat_ofNat_byte hn, hlow, hhigh]

theorem step_last {low high value n : Nat} (hn : n < 256) (hlow : low ≤ n) (hhigh : n ≤ high) :
    step (.some 0 low high value) (.ofNat n)
      = ([some (.ofNat (value * 64 + n % 64))], .none) := by
  simp [step, toNat_ofNat_byte hn, hlow, hhigh]

/-- **The bytes of a character** are read as this character. -/
theorem completes_utf8EncodeChar (c : Char) : Completes c .none (String.utf8EncodeChar c) := by
  have hvalid : c.val.toNat < 0xD800 ∨ 0xDFFF < c.val.toNat ∧ c.val.toNat < 0x110000 := c.valid
  have hchar : ∀ n, n = c.val.toNat → Char.ofNat n = c := by
    rintro n rfl
    exact Char.ofNat_toNat c
  unfold String.utf8EncodeChar
  -- by the number of bytes
  by_cases hone : c.val.toNat ≤ 0x7F
  · rw [if_pos hone]
    exact .last (start_byte (Nat.lt_succ_of_le hone))
  by_cases htwo : c.val.toNat ≤ 0x7FF
  · rw [if_neg hone, if_pos htwo]
    refine .more (start_two (by omega) (by omega)) (.last ?_)
    rw [step_last (by omega) (by omega) (by omega), hchar]
    omega
  by_cases hthree : c.val.toNat ≤ 0xFFFF
  · rw [if_neg hone, if_neg htwo, if_pos hthree]
    refine .more (start_three (by omega) (by omega)) (.more (step_more (by omega) ?_ ?_) (.last ?_))
    · -- fewer bytes would not do
      split <;> omega
    · -- no surrogate
      split <;> omega
    · rw [step_last (by omega) (by omega) (by omega), hchar]
      omega
  · rw [if_neg hone, if_neg htwo, if_neg hthree]
    refine .more (start_four (by omega) (by omega)) (.more (step_more (by omega) ?_ ?_)
      (.more (step_more (by omega) (by omega) (by omega)) (.last ?_)))
    · -- fewer bytes would not do
      split <;> omega
    · -- no more than `U+10FFFF`
      split <;> omega
    · rw [step_last (by omega) (by omega) (by omega), hchar]
      omega

/-- The bytes of a character after the first one. -/
theorem toNat_of_mem_tail {c : Char} {b : UInt8} (h : b ∈ (String.utf8EncodeChar c).tail) :
    0x80 ≤ b.toNat ∧ b.toNat < 0xC0 := by
  have hbyte : ∀ n, 0x80 ≤ (UInt8.ofNat (n % 64 + 128)).toNat ∧
      (UInt8.ofNat (n % 64 + 128)).toNat < 0xC0 := by
    intro n
    rw [toNat_ofNat_byte (by omega)]
    omega
  unfold String.utf8EncodeChar at h
  dsimp only at h
  split at h
  · cases h
  split at h
  · simp only [List.tail_cons, List.mem_singleton] at h
    rw [h]
    exact hbyte _
  split at h
  · simp only [List.tail_cons, List.mem_cons, List.not_mem_nil, or_false] at h
    rcases h with rfl | rfl
    · exact hbyte _
    · exact hbyte _
  · simp only [List.tail_cons, List.mem_cons, List.not_mem_nil, or_false] at h
    rcases h with rfl | rfl | rfl
    · exact hbyte _
    · exact hbyte _
    · exact hbyte _

theorem length_encode (s : List Char) : (encode s).length = size s := by
  induction s with
  | nil => rfl
  | cons c s ih =>
    rw [encode] at ih
    rw [encode, List.flatMap_cons, List.length_append, String.length_utf8EncodeChar, ih, size]

/-! The decoder. -/

theorem utf8EncodeChar_ne_nil (c : Char) : String.utf8EncodeChar c ≠ [] := by
  have hsize := c.utf8Size_pos
  rw [← String.length_utf8EncodeChar] at hsize
  exact List.ne_nil_of_length_pos hsize

theorem decodeLossy_append (c : Char) (rest : List UInt8) :
    decodeLossy (String.utf8EncodeChar c ++ rest) = c :: decodeLossy rest := by
  rw [decodeLossy, (completes_utf8EncodeChar c).run_append]
  rfl

theorem decodeLossy_of_mem_tail (c : Char) (b : UInt8) (hb : b ∈ (String.utf8EncodeChar c).tail)
    (rest : List UInt8) : decodeLossy (b :: rest) = replacement :: decodeLossy rest := by
  obtain ⟨hlow, hhigh⟩ := toNat_of_mem_tail hb
  rw [decodeLossy, run, step, start_continuation hlow hhigh]
  rfl

theorem decodeLossy_take (c : Char) (n : Nat) (hpos : 0 < n)
    (hn : n < (String.utf8EncodeChar c).length) :
    decodeLossy ((String.utf8EncodeChar c).take n) = [replacement] := by
  rw [decodeLossy, (completes_utf8EncodeChar c).run_take hpos hn]
  rfl

/-- UTF-8 with its lossy decoder. -/
def coding : LossyCoding UInt8 where
  encodeChar := String.utf8EncodeChar
  decode := decodeLossy
  encodeChar_ne_nil := utf8EncodeChar_ne_nil
  decode_nil := rfl
  decode_whole := decodeLossy_append
  decode_severed := decodeLossy_of_mem_tail
  decode_split := decodeLossy_take

end Utf8

/-! ### UTF-16 -/

namespace Utf16

theorem toNat_ofNat_unit {n : Nat} (h : n < 0x10000) : (UInt16.ofNat n).toNat = n := by
  rw [UInt16.toNat_ofNat']
  omega

/-- A character up to `U+FFFF` is one unit, and this is no surrogate. -/
theorem encodeChar_one {c : Char} (h : c.toNat < 0x10000) :
    encodeChar c = [.ofNat c.toNat] ∧ isHigh (.ofNat c.toNat) = false ∧
      isLow (.ofNat c.toNat) = false := by
  have hvalid : c.toNat < 0xD800 ∨ 0xDFFF < c.toNat ∧ c.toNat < 0x110000 := c.valid
  refine ⟨if_pos h, ?_, ?_⟩
  · rw [isHigh, toNat_ofNat_unit h]
    simp
    omega
  · rw [isLow, toNat_ofNat_unit h]
    simp
    omega

/-- A character above `U+FFFF` is a pair of surrogates. -/
theorem encodeChar_two {c : Char} (h : 0x10000 ≤ c.toNat) :
    ∃ u v, encodeChar c = [u, v] ∧ isHigh u = true ∧ isLow v = true ∧ join u v = c := by
  have hvalid : c.toNat < 0xD800 ∨ 0xDFFF < c.toNat ∧ c.toNat < 0x110000 := c.valid
  have hu := toNat_ofNat_unit (n := 0xD800 + (c.toNat - 0x10000) / 0x400) (by omega)
  have hv := toNat_ofNat_unit (n := 0xDC00 + (c.toNat - 0x10000) % 0x400) (by omega)
  refine ⟨_, _, if_neg (Nat.not_lt_of_le h), ?_, ?_, ?_⟩
  · rw [isHigh, hu]
    simp
    omega
  · rw [isLow, hv]
    simp
    omega
  · rw [join, hu, hv]
    have hsum : 0x10000 + (0xD800 + (c.toNat - 0x10000) / 0x400 - 0xD800) * 0x400
        + (0xDC00 + (c.toNat - 0x10000) % 0x400 - 0xDC00) = c.toNat := by
      omega
    rw [hsum, Char.ofNat_toNat]

/-- The second half of a pair is replaced where the first one is missing. -/
theorem decodeLossy_low {u : UInt16} (hhigh : isHigh u = false) (hlow : isLow u = true)
    (rest : List UInt16) : decodeLossy (u :: rest) = Utf8.replacement :: decodeLossy rest := by
  cases rest with
  | nil => simp [decodeLossy, hlow]
  | cons v rest => simp [decodeLossy, hhigh, hlow]

theorem isHigh_of_isLow {u : UInt16} (h : isLow u = true) : isHigh u = false := by
  simp only [isLow, Bool.and_eq_true, decide_eq_true_eq] at h
  simp [isHigh]
  omega

theorem encodeChar_ne_nil (c : Char) : encodeChar c ≠ [] := by
  by_cases h : c.toNat < 0x10000
  · rw [(encodeChar_one h).1]
    exact List.cons_ne_nil _ _
  · obtain ⟨u, v, huv, -⟩ := encodeChar_two (Nat.le_of_not_lt h)
    rw [huv]
    exact List.cons_ne_nil _ _

theorem decodeLossy_append (c : Char) (rest : List UInt16) :
    decodeLossy (encodeChar c ++ rest) = c :: decodeLossy rest := by
  by_cases h : c.toNat < 0x10000
  · obtain ⟨hunit, hhigh, hlow⟩ := encodeChar_one h
    rw [hunit, List.singleton_append, decodeLossy_cons hhigh hlow, toNat_ofNat_unit h,
      Char.ofNat_toNat]
  · obtain ⟨u, v, huv, hhigh, hlow, hjoin⟩ := encodeChar_two (Nat.le_of_not_lt h)
    rw [huv]
    simp [decodeLossy, hhigh, hlow, hjoin]

theorem decodeLossy_of_mem_tail (c : Char) (u : UInt16) (hu : u ∈ (encodeChar c).tail)
    (rest : List UInt16) : decodeLossy (u :: rest) = Utf8.replacement :: decodeLossy rest := by
  by_cases h : c.toNat < 0x10000
  · rw [(encodeChar_one h).1] at hu
    cases hu
  · obtain ⟨_, v, huv, -, hlow, -⟩ := encodeChar_two (Nat.le_of_not_lt h)
    rw [huv, List.tail_cons, List.mem_singleton] at hu
    rw [hu, decodeLossy_low (isHigh_of_isLow hlow) hlow]

theorem decodeLossy_take (c : Char) (n : Nat) (hpos : 0 < n) (hn : n < (encodeChar c).length) :
    decodeLossy ((encodeChar c).take n) = [Utf8.replacement] := by
  by_cases h : c.toNat < 0x10000
  · rw [(encodeChar_one h).1, List.length_singleton] at hn
    omega
  · -- of a pair, only the first half can be left
    obtain ⟨u, v, huv, hhigh, -⟩ := encodeChar_two (Nat.le_of_not_lt h)
    rw [huv] at hn ⊢
    obtain rfl : n = 1 := by
      simp only [List.length_cons, List.length_nil] at hn
      omega
    simp [decodeLossy, hhigh]

/-- UTF-16 with its lossy decoder. -/
def coding : LossyCoding UInt16 where
  encodeChar := encodeChar
  decode := decodeLossy
  encodeChar_ne_nil := encodeChar_ne_nil
  decode_nil := rfl
  decode_whole := decodeLossy_append
  decode_severed := decodeLossy_of_mem_tail
  decode_split := decodeLossy_take

end Utf16

end SyntaxView.Text
