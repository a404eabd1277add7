import SyntaxView.Source

/-!
# What is left of a text that is cut anywhere

A cut of an encoded text need not respect its characters.  It may start inside a character, of
which only the last units are then left, and end inside one, of which only the first units are left.
What the decoder makes of the cut is said by `cutText` in terms of the characters and the units they
take (`placements`), without the encoding and without the decoder: a replacement character for each
unit that has lost the start of its character, the whole characters, and one replacement character
for a character that has lost its end.

A few facts about an encoding and its decoder are enough for this to be so (`LossyCoding`).  The
main statement is `LossyCoding.decode_cut`.  Its proof goes through the characters from the first
on: the cut starts after the start of the character or not, and ends before its end or not, and in
each case what the character adds to the decoded text is what it adds to `cutText`
(`cutText_cons_of_lt`, `cutText_cons_inside`, `cutText_cons_beyond`).
-/

namespace SyntaxView.Text

/-! ### Characters and the units they take -/

/-- A character of a text, with the units it takes: those from `start` up to `stop`. -/
structure Placed where
  char : Char
  start : Nat
  stop : Nat
  deriving Repr, DecidableEq

/-- The characters of a text whose first unit is `first`, each as many units wide as `width`
says. -/
def placements (width : Char → Nat) (first : Nat) : List Char → List Placed
  | [] => []
  | c :: s => ⟨c, first, first + width c⟩ :: placements width (first + width c) s

/-- The number of units from `start` up to `stop` that belong to a character that starts before
`start`. -/
def severed (ps : List Placed) (start stop : Nat) : Nat :=
  (List.range' start (stop - start)).countP fun u =>
    ps.any fun p => p.start < start && p.start ≤ u && u < p.stop

/-- The characters that lie between `start` and `stop`. -/
def inside (ps : List Placed) (start stop : Nat) : List Char :=
  (ps.filter fun p => start ≤ p.start && p.stop ≤ stop).map (·.char)

/-- Some character starts between `start` and `stop` and ends beyond `stop`. -/
def isSplit (ps : List Placed) (start stop : Nat) : Bool :=
  ps.any fun p => start ≤ p.start && p.start < stop && stop < p.stop

/-- What is left of a text between two units. -/
def cutText (ps : List Placed) (start stop : Nat) : List Char :=
  List.replicate (severed ps start stop) Utf8.replacement ++ inside ps start stop ++
    if isSplit ps start stop then [Utf8.replacement] else []

/-! ### One character more -/

/-- The characters start at `first` or later. -/
def StartFrom (first : Nat) (ps : List Placed) : Prop :=
  ∀ p ∈ ps, first ≤ p.start ∧ p.start ≤ p.stop

theorem StartFrom.mono {first : Nat} {ps : List Placed} (h : StartFrom first ps) {start : Nat}
    (hle : start ≤ first) : StartFrom start ps :=
  fun p hp => ⟨Nat.le_trans hle (h p hp).1, (h p hp).2⟩

theorem startFrom_placements (width : Char → Nat) (first : Nat) (s : List Char) :
    StartFrom first (placements width first s) := by
  induction s generalizing first with
  | nil =>
    intro p hp
    cases hp
  | cons c s ih =>
    intro p hp
    rcases List.mem_cons.mp hp with rfl | hp
    · exact ⟨Nat.le_refl _, Nat.le_add_right _ _⟩
    · obtain ⟨hle, hstop⟩ := ih (first + width c) p hp
      exact ⟨Nat.le_of_add_right_le hle, hstop⟩

section

variable {ps : List Placed} {p : Placed} {start stop : Nat}

theorem severed_eq_zero (h : StartFrom start ps) : severed ps start stop = 0 := by
  refine List.countP_eq_zero.mpr fun u _ hu => ?_
  obtain ⟨p, hp, hlt⟩ := List.any_eq_true.mp hu
  have hle := (h p hp).1
  simp only [Bool.and_eq_true, decide_eq_true_eq] at hlt
  omega

theorem countP_range'_lt (start n k : Nat) :
    (List.range' start n).countP (· < k) = min n (k - start) := by
  induction n with
  | zero => simp
  | succ n ih =>
    rw [List.range'_1_concat, List.countP_append, ih, List.countP_singleton]
    by_cases h : start + n < k
    · simp only [h, decide_true, ↓reduceIte]
      omega
    · simp only [h, decide_false, Bool.false_eq_true, ↓reduceIte]
      omega

/-- The units of a character that starts before the range count as far as they are in it. -/
theorem severed_cons (hp : p.start < start) (h : StartFrom p.stop ps) :
    severed (p :: ps) start stop = (min stop p.stop - start) + severed ps start stop := by
  by_cases hstop : p.stop ≤ start
  · -- the character ends before the range
    have hzero : min stop p.stop - start = 0 := by omega
    rw [hzero, Nat.zero_add]
    refine List.countP_congr fun u hu => ?_
    have hle := (List.mem_range'_1.mp hu).1
    have hout : ¬ u < p.stop := by omega
    simp [hout]
  · -- every later character starts in the range or beyond it
    have hlater : StartFrom start ps := h.mono (Nat.le_of_not_le hstop)
    rw [severed_eq_zero hlater, Nat.add_zero]
    have hcount : severed (p :: ps) start stop
        = (List.range' start (stop - start)).countP (· < p.stop) := by
      refine List.countP_congr fun u hu => ?_
      have hle := (List.mem_range'_1.mp hu).1
      have hnone : (ps.any fun q => q.start < start && q.start ≤ u && u < q.stop) = false := by
        refine List.any_eq_false.mpr fun q hq => ?_
        have := (hlater q hq).1
        simp
        omega
      have hfirst : p.start ≤ u := by omega
      rw [List.any_cons, hnone]
      simp [hp, hfirst]
    rw [hcount, countP_range'_lt]
    omega

/-- A character that starts before the range. -/
theorem cutText_cons_of_lt (hp : p.start < start) (h : StartFrom p.stop ps) :
    cutText (p :: ps) start stop
      = List.replicate (min stop p.stop - start) Utf8.replacement ++ cutText ps start stop := by
  have hinside : inside (p :: ps) start stop = inside ps start stop := by
    simp [inside, Nat.not_le_of_lt hp]
  have hsplit : isSplit (p :: ps) start stop = isSplit ps start stop := by
    simp [isSplit, Nat.not_le_of_lt hp]
  rw [cutText, cutText, severed_cons hp h, hinside, hsplit, ← List.replicate_append_replicate]
  simp only [List.append_assoc]

/-- A character inside the range. -/
theorem cutText_cons_inside (hp : start ≤ p.start) (hle : p.start ≤ p.stop) (hstop : p.stop ≤ stop)
    (h : StartFrom p.stop ps) : cutText (p :: ps) start stop = p.char :: cutText ps start stop := by
  have hlater : StartFrom start ps := h.mono (Nat.le_trans hp hle)
  have hall : StartFrom start (p :: ps) := List.forall_mem_cons.mpr ⟨⟨hp, hle⟩, hlater⟩
  have hinside : inside (p :: ps) start stop = p.char :: inside ps start stop := by
    simp [inside, hp, hstop]
  have hsplit : isSplit (p :: ps) start stop = isSplit ps start stop := by
    simp [isSplit, Nat.not_lt_of_le hstop]
  rw [cutText, cutText, severed_eq_zero hlater, severed_eq_zero hall, hinside, hsplit]
  rfl

/-- A character that ends beyond the range, be it that it starts in it or not: nothing after it is
in the range. -/
theorem cutText_cons_beyond (hp : start ≤ p.start) (hle : p.start ≤ p.stop) (hstop : stop < p.stop)
    (h : StartFrom p.stop ps) :
    cutText (p :: ps) start stop = if p.start < stop then [Utf8.replacement] else [] := by
  have hlater : StartFrom start ps := h.mono (Nat.le_trans hp hle)
  have hall : StartFrom start (p :: ps) := List.forall_mem_cons.mpr ⟨⟨hp, hle⟩, hlater⟩
  have hinside : inside (p :: ps) start stop = [] := by
    have hnone : ∀ q ∈ p :: ps, ¬ q.stop ≤ stop := by
      refine List.forall_mem_cons.mpr ⟨by omega, fun q hq => ?_⟩
      have := h q hq
      omega
    rw [inside, List.filter_eq_nil_iff.mpr fun q hq => by simp [hnone q hq]]
    rfl
  have hsplit : isSplit (p :: ps) start stop = decide (p.start < stop) := by
    have hnone : isSplit ps start stop = false := by
      refine List.any_eq_false.mpr fun q hq => ?_
      have := h q hq
      simp
      omega
    rw [isSplit] at hnone
    rw [isSplit, List.any_cons, hnone]
    simp [hp, hstop]
  rw [cutText, severed_eq_zero hall, hinside, hsplit]
  by_cases hstart : p.start < stop <;> simp [hstart]

end

/-! ### Encodings and their decoders -/

/-- An encoding of characters by units, and a decoder with replacement characters.  The decoder
reads a whole character as it is, whatever comes after it; a unit that is not the first one of a
character it replaces by itself, and the first units of a character it replaces together. -/
structure LossyCoding (α : Type) where
  encodeChar : Char → List α
  decode : List α → List Char
  encodeChar_ne_nil : ∀ c, encodeChar c ≠ []
  decode_nil : decode [] = []
  decode_whole : ∀ c rest, decode (encodeChar c ++ rest) = c :: decode rest
  decode_severed : ∀ c, ∀ u ∈ (encodeChar c).tail, ∀ rest,
    decode (u :: rest) = Utf8.replacement :: decode rest
  decode_split : ∀ c n, 0 < n → n < (encodeChar c).length →
    decode ((encodeChar c).take n) = [Utf8.replacement]

namespace LossyCoding

variable {α : Type} (coding : LossyCoding α)

/-- The number of units of a character. -/
def width (c : Char) : Nat := (coding.encodeChar c).length

/-- The units of a text. -/
def encode (s : List Char) : List α := s.flatMap coding.encodeChar

theorem encode_append (s t : List Char) :
    coding.encode (s ++ t) = coding.encode s ++ coding.encode t := List.flatMap_append

/-- A text comes back as it was. -/
theorem decode_encode (s : List Char) : coding.decode (coding.encode s) = s := by
  induction s with
  | nil => exact coding.decode_nil
  | cons c s ih =>
    rw [encode, List.flatMap_cons, coding.decode_whole, ← encode, ih]

theorem decode_severed_append (c : Char) {units : List α}
    (h : ∀ u ∈ units, u ∈ (coding.encodeChar c).tail) (rest : List α) :
    coding.decode (units ++ rest)
      = List.replicate units.length Utf8.replacement ++ coding.decode rest := by
  induction units with
  | nil => rfl
  | cons u units ih =>
    obtain ⟨hu, hunits⟩ := List.forall_mem_cons.mp h
    rw [List.cons_append, coding.decode_severed c u hu, ih hunits]
    rfl

/-- A cut through two lists, one after the other. -/
theorem drop_take_append (x y : List α) (a b : Nat) :
    ((x ++ y).take b).drop a
      = (x.take b).drop a ++ ((y.take (b - x.length)).drop (a - x.length)) := by
  rw [List.take_append, List.drop_append, List.length_take]
  by_cases hb : x.length ≤ b
  · rw [Nat.min_eq_right hb]
  · rw [Nat.sub_eq_zero_of_le (Nat.le_of_not_le hb), List.take_zero, List.drop_nil, List.drop_nil]

/-- **What a cut is decoded to.**  The first unit of the text is `first`. -/
theorem decode_cut (s : List Char) (first : Nat) {start stop : Nat} (h : start ≤ stop) :
    coding.decode (((coding.encode s).take (stop - first)).drop (start - first))
      = cutText (placements coding.width first s) start stop := by
  induction s generalizing first with
  | nil =>
    rw [encode, List.flatMap_nil, List.take_nil, List.drop_nil, coding.decode_nil]
    simp [placements, cutText, severed, inside, isSplit]
  | cons c s ih =>
    have hpos : 0 < coding.width c := List.length_pos_iff.mpr (coding.encodeChar_ne_nil c)
    have hlater := startFrom_placements coding.width (first + coding.width c) s
    have hcut := drop_take_append (coding.encodeChar c) (coding.encode s) (start - first)
      (stop - first)
    rw [Nat.sub_sub, Nat.sub_sub, ← width] at hcut
    show coding.decode (((coding.encodeChar c ++ coding.encode s).take _).drop _) = _
    rw [hcut, placements]
    by_cases hfirst : first < start
    · -- the character has lost its start, and maybe all of its units
      have htail : ∀ u ∈ ((coding.encodeChar c).take (stop - first)).drop (start - first),
          u ∈ (coding.encodeChar c).tail := by
        intro u hu
        obtain ⟨k, hk⟩ : ∃ k, start - first = k + 1 := ⟨start - first - 1, by omega⟩
        rw [List.drop_take, hk, Nat.add_comm k 1, ← List.drop_drop, List.drop_one] at hu
        exact List.mem_of_mem_drop (List.mem_of_mem_take hu)
      have hlength : (((coding.encodeChar c).take (stop - first)).drop (start - first)).length
          = min stop (first + coding.width c) - start := by
        rw [List.length_drop, List.length_take, ← width]
        omega
      rw [coding.decode_severed_append c htail, ih, hlength, cutText_cons_of_lt hfirst hlater]
    · have hstart : start ≤ first := Nat.le_of_not_lt hfirst
      have ih := ih (first + coding.width c)
      rw [Nat.sub_eq_zero_of_le (Nat.le_add_right_of_le hstart), List.drop_zero] at ih
      rw [Nat.sub_eq_zero_of_le hstart, Nat.sub_eq_zero_of_le (Nat.le_add_right_of_le hstart),
        List.drop_zero, List.drop_zero]
      by_cases hstop : first + coding.width c ≤ stop
      · have hwhole : (coding.encodeChar c).take (stop - first) = coding.encodeChar c :=
          List.take_of_length_le (by rw [← width]; omega)
        rw [hwhole, coding.decode_whole, ih,
          cutText_cons_inside hstart (Nat.le_add_right _ _) hstop hlater]
      · -- the character has lost its end, and maybe all of its units
        have hstop : stop < first + coding.width c := Nat.lt_of_not_le hstop
        rw [Nat.sub_eq_zero_of_le (Nat.le_of_lt hstop), List.take_zero, List.append_nil,
          cutText_cons_beyond hstart (Nat.le_add_right _ _) hstop hlater]
        by_cases hsplit : first < stop
        · rw [if_pos hsplit, coding.decode_split c _ (by omega) (by rw [← width]; omega)]
        · rw [if_neg hsplit, Nat.sub_eq_zero_of_le (Nat.le_of_not_lt hsplit), List.take_zero,
            coding.decode_nil]

end LossyCoding

end SyntaxView.Text
