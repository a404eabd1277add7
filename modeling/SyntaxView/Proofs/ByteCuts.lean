import SyntaxView.Query.Pattern

/-!
# Cutting a text at character boundaries

A text is cut by offsets in bytes.  An offset lies on a boundary (`IsBoundary`) if the bytes
before it are whole characters; between two boundaries there is a piece of the text
(`slice?_append`), and pieces that follow one another make up the piece from the first boundary to
the last (`piece_append`).

The argument is the same throughout: characters have at least one byte, so of two splits of one
text the one with fewer bytes in front is the earlier one (`exists_split`).
-/

namespace SyntaxView

namespace Text.Utf8

theorem size_append (s t : List Char) : size (s ++ t) = size s + size t := by
  induction s with
  | nil => rw [List.nil_append, size, Nat.zero_add]
  | cons c s ih => rw [List.cons_append, size, size, ih, Nat.add_assoc]

theorem eq_nil_of_size_eq_zero {s : List Char} (h : size s = 0) : s = [] := by
  cases s with
  | nil => rfl
  | cons c s =>
    have hpos := c.utf8Size_pos
    rw [size] at h
    omega

/-! ### Whole characters -/

theorem drop?_cons (c : Char) (n : Nat) (s : List Char) :
    drop? (c.utf8Size + n) (c :: s) = drop? n s := by
  obtain ⟨k, hk⟩ : ∃ k, c.utf8Size + n = k + 1 :=
    Nat.exists_eq_add_one.mpr (Nat.add_pos_left c.utf8Size_pos n)
  rw [hk, drop?, if_pos (by omega), ← hk, Nat.add_sub_cancel_left]

theorem take?_cons (c : Char) (n : Nat) (s : List Char) :
    take? (c.utf8Size + n) (c :: s) = (take? n s).map (c :: ·) := by
  obtain ⟨k, hk⟩ : ∃ k, c.utf8Size + n = k + 1 :=
    Nat.exists_eq_add_one.mpr (Nat.add_pos_left c.utf8Size_pos n)
  rw [hk, take?, if_pos (by omega), ← hk, Nat.add_sub_cancel_left]

theorem drop?_append (s t : List Char) : drop? (size s) (s ++ t) = some t := by
  induction s with
  | nil => rw [size, List.nil_append, drop?]
  | cons c s ih => rw [List.cons_append, size, drop?_cons, ih]

theorem take?_append (s t : List Char) : take? (size s) (s ++ t) = some s := by
  induction s with
  | nil => rw [size, take?]
  | cons c s ih => rw [List.cons_append, size, take?_cons, ih, Option.map_some]

theorem slice?_append (u v w : List Char) :
    slice? (size u) (size u + size v) (u ++ (v ++ w)) = some v := by
  rw [slice?, if_pos (Nat.le_add_right _ _), drop?_append, Option.bind_some,
    Nat.add_sub_cancel_left, take?_append]

/-! ### Boundaries -/

/-- The first `offset` bytes of the text are whole characters. -/
def IsBoundary (offset : Nat) (s : List Char) : Prop := ∃ u v, s = u ++ v ∧ size u = offset

theorem isBoundary_size (s : List Char) : IsBoundary (size s) s := ⟨s, [], by simp, rfl⟩

theorem IsBoundary.le_size {n : Nat} {s : List Char} (h : IsBoundary n s) : n ≤ size s := by
  obtain ⟨u, v, rfl, rfl⟩ := h
  rw [size_append]
  exact Nat.le_add_right _ _

theorem exists_of_drop?_eq_some {n : Nat} {s t : List Char} (h : drop? n s = some t) :
    ∃ u, s = u ++ t ∧ size u = n := by
  fun_induction drop? n s with
  | case1 s => exact ⟨[], Option.some.inj h, rfl⟩
  | case2 => cases h
  | case3 n c s hle ih =>
    obtain ⟨u, rfl, hu⟩ := ih h
    refine ⟨c :: u, rfl, ?_⟩
    rw [size, hu]
    omega
  | case4 => cases h

theorem isBoundary_iff (n : Nat) (s : List Char) : IsBoundary n s ↔ (drop? n s).isSome = true := by
  constructor
  · rintro ⟨u, v, rfl, rfl⟩
    rw [drop?_append]
    rfl
  · intro h
    obtain ⟨t, ht⟩ := Option.isSome_iff_exists.mp h
    obtain ⟨u, hs, hu⟩ := exists_of_drop?_eq_some ht
    exact ⟨u, t, hs, hu⟩

instance (n : Nat) (s : List Char) : Decidable (IsBoundary n s) :=
  decidable_of_iff _ (isBoundary_iff n s).symm

/-- **Two boundaries** cut a text into three pieces. -/
theorem exists_split {s : List Char} {a b : Nat} (ha : IsBoundary a s) (hb : IsBoundary b s)
    (hab : a ≤ b) : ∃ u v w, s = u ++ (v ++ w) ∧ size u = a ∧ size u + size v = b := by
  obtain ⟨u, t, hs, rfl⟩ := ha
  obtain ⟨u', w, hs', rfl⟩ := hb
  rcases List.append_eq_append_iff.mp (hs.symm.trans hs') with ⟨v, hu', ht⟩ | ⟨v, hu, hw⟩
  · refine ⟨u, v, w, ?_, rfl, ?_⟩
    · rw [hs, ht]
    · rw [hu', size_append]
  · -- the second boundary is not before the first one, so they are the same
    have hv : v = [] := by
      apply eq_nil_of_size_eq_zero
      rw [hu, size_append] at hab
      omega
    refine ⟨u, [], w, ?_, rfl, ?_⟩
    · rw [hs', hu, hv, List.append_nil, List.nil_append]
    · rw [hu, hv, List.append_nil, size, Nat.add_zero]

end Text.Utf8

namespace Pattern

open Text

/-- The text between two offsets, with the white space at its end. -/
def piece (source : List Char) (start stop : Nat) : List Char :=
  (Utf8.slice? start stop source).getD []

theorem piece_eq (u v w : List Char) :
    piece (u ++ (v ++ w)) (Utf8.size u) (Utf8.size u + Utf8.size v) = v := by
  rw [piece, Utf8.slice?_append]
  rfl

/-- Pieces that follow one another. -/
theorem piece_append {source : List Char} {a b c : Nat} (ha : Utf8.IsBoundary a source)
    (hb : Utf8.IsBoundary b source) (hc : Utf8.IsBoundary c source) (hab : a ≤ b) (hbc : b ≤ c) :
    piece source a c = piece source a b ++ piece source b c := by
  obtain ⟨u, v, t, rfl, rfl, rfl⟩ := Utf8.exists_split ha hb hab
  obtain ⟨u', w, rest, hs, hu', rfl⟩ := Utf8.exists_split hb hc hbc
  -- what comes after the second boundary is the same in both splits
  have ht : t = w ++ rest := by
    have hdrop := Utf8.drop?_append (u ++ v) t
    rw [Utf8.size_append, ← hu', List.append_assoc, hs, Utf8.drop?_append] at hdrop
    exact (Option.some.inj hdrop).symm
  have hwhole := piece_eq u (v ++ w) rest
  have hlast := piece_eq (u ++ v) w rest
  rw [Utf8.size_append, ← Nat.add_assoc, List.append_assoc] at hwhole
  rw [Utf8.size_append, List.append_assoc] at hlast
  rw [hu', ht, hwhole, piece_eq, hlast]

end Pattern

end SyntaxView
