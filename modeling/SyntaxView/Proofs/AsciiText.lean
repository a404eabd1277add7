import SyntaxView.Source

/-!
# Texts of ASCII characters

An ASCII character is one code unit in both encodings.  So every place in an ASCII text is a place
between two characters, no cut splits a character, and a cut of the encoded text is the encoded
cut of the text, in UTF-8 (`text_encode_utf8`) and, with bytes counted twice, in UTF-16
(`text_encode_utf16`).
-/

namespace SyntaxView.Text

/-- Every character is an ASCII character. -/
def IsAscii (s : List Char) : Prop := ∀ c ∈ s, c.toNat < 128

instance (s : List Char) : Decidable (IsAscii s) :=
  List.decidableBAll (fun c : Char => c.toNat < 128) s

theorem IsAscii.of_cons {c : Char} {s : List Char} (h : IsAscii (c :: s)) :
    c.toNat < 128 ∧ IsAscii s :=
  ⟨h c List.mem_cons_self, fun d hd => h d (List.mem_cons_of_mem c hd)⟩

/-! ### UTF-8 -/

namespace Utf8

/-- The byte of an ASCII character. -/
def byte (c : Char) : UInt8 := UInt8.ofNat c.toNat

theorem encode_of_isAscii {s : List Char} (h : IsAscii s) : encode s = s.map byte := by
  induction s with
  | nil => rfl
  | cons c s ih =>
    obtain ⟨hc, hs⟩ := h.of_cons
    have hle : c.val.toNat ≤ 0x7F := Nat.le_of_lt_succ hc
    have hchar : String.utf8EncodeChar c = [byte c] := by
      unfold String.utf8EncodeChar
      rw [if_pos hle]
      rfl
    show String.utf8EncodeChar c ++ encode s = _
    rw [hchar, ih hs, List.singleton_append, List.map_cons]

theorem start_byte {c : Char} (hc : c.toNat < 128) : start (byte c) = ([some c], .none) := by
  have hbyte : (byte c).toNat = c.toNat := by
    rw [byte, UInt8.toNat_ofNat']
    omega
  unfold start
  simp only [hbyte, hc, ↓reduceIte, Char.ofNat_toNat]

theorem decodeLossy_map_byte {s : List Char} (h : IsAscii s) : decodeLossy (s.map byte) = s := by
  have hrun : run .none (s.map byte) = s.map some := by
    induction s with
    | nil => rfl
    | cons c s ih =>
      obtain ⟨hc, hs⟩ := h.of_cons
      rw [List.map_cons, run, step, start_byte hc, ih hs]
      rfl
  rw [decodeLossy, hrun, List.map_map]
  exact List.map_id s

end Utf8

/-! ### UTF-16 -/

namespace Utf16

/-- The code unit of an ASCII character. -/
def unit (c : Char) : UInt16 := UInt16.ofNat c.toNat

theorem encode_of_isAscii {s : List Char} (h : IsAscii s) : encode s = s.map unit := by
  induction s with
  | nil => rfl
  | cons c s ih =>
    obtain ⟨hc, hs⟩ := h.of_cons
    have hchar : encodeChar c = [unit c] := by
      unfold encodeChar
      rw [if_pos (by omega)]
      rfl
    show encodeChar c ++ encode s = _
    rw [hchar, ih hs, List.singleton_append, List.map_cons]

/-- A unit that is no surrogate stands for itself, whatever comes after it. -/
theorem decodeLossy_cons {u : UInt16} (hhigh : isHigh u = false) (hlow : isLow u = false)
    (rest : List UInt16) : decodeLossy (u :: rest) = Char.ofNat u.toNat :: decodeLossy rest := by
  cases rest with
  | nil => simp [decodeLossy, hhigh, hlow]
  | cons v rest => simp [decodeLossy, hhigh, hlow]

theorem decodeLossy_map_unit {s : List Char} (h : IsAscii s) : decodeLossy (s.map unit) = s := by
  induction s with
  | nil => rfl
  | cons c s ih =>
    obtain ⟨hc, hs⟩ := h.of_cons
    have hunit : (unit c).toNat = c.toNat := by
      rw [unit, UInt16.toNat_ofNat']
      omega
    have hhigh : isHigh (unit c) = false := by
      rw [isHigh, hunit]
      simp
      omega
    have hlow : isLow (unit c) = false := by
      rw [isLow, hunit]
      simp
      omega
    rw [List.map_cons, decodeLossy_cons hhigh hlow, ih hs, hunit, Char.ofNat_toNat]

end Utf16

end SyntaxView.Text

/-! ### Cuts -/

namespace SyntaxView.Source

open Text

theorem clamp_map {α β : Type} (f : α → β) (xs : List α) (start stop : Nat) :
    clamp (xs.map f) start stop = (clamp xs start stop).map f := by
  rw [clamp_eq, clamp_eq, List.length_map, List.map_drop, List.map_take]

theorem isAscii_clamp {s : List Char} (h : IsAscii s) (start stop : Nat) :
    IsAscii (clamp s start stop) := by
  intro c hc
  rw [clamp_eq] at hc
  exact h c (List.mem_of_mem_take (List.mem_of_mem_drop hc))

variable {s : String} (h : IsAscii s.toList) (start stop : Nat)

include h

theorem text_encode_utf8 :
    (encode s .utf8).text start stop = .ofList (clamp s.toList start stop) := by
  rw [encode, text_utf8, Utf8.encode_of_isAscii h, clamp_map,
    Utf8.decodeLossy_map_byte (isAscii_clamp h start stop)]

theorem text_encode_utf16 :
    (encode s .utf16).text (2 * start) (2 * stop) = .ofList (clamp s.toList start stop) := by
  rw [encode, text_utf16, Nat.mul_div_cancel_left start Nat.two_pos,
    Nat.mul_div_cancel_left stop Nat.two_pos, Utf16.encode_of_isAscii h, clamp_map,
    Utf16.decodeLossy_map_unit (isAscii_clamp h start stop)]

end SyntaxView.Source
