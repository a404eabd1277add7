import SyntaxView.Query.Predicate

/-!
# What the reader of predicates does

One equation for each way the readers of `PredicateText` can go on, so that nothing later has to
unfold them: a word ends where its class ends (`readWord_append`), a literal is read character by
character or pair by pair, arguments and the texts around predicates are read item by item.

From the same readers, on any text at all: what is read as a name is a word
(`isWellNamed_of_mem_scan`).
-/

namespace SyntaxView

open Text

namespace PredicateText

/-! ### Words -/

/-- A text that is a word, possibly the empty one. -/
def isWord (s : String) : Bool := s.toList.all isWordChar

/-- What can come after a word without making it longer. -/
def EndsWord (rest : List Char) : Prop := ∀ c ∈ rest.head?, isWordChar c = false

theorem endsWord_cons {c : Char} (h : isWordChar c = false) (rest : List Char) :
    EndsWord (c :: rest) := by
  intro d hd
  obtain rfl : c = d := Option.some.inj hd
  exact h

/-- A word is read up to its end and no further. -/
theorem readWord_append {word rest : List Char} (hword : word.all isWordChar = true)
    (hrest : EndsWord rest) : readWord (word ++ rest) = (word, rest) := by
  have hall : ∀ c ∈ word, isWordChar c = true := List.all_eq_true.mp hword
  unfold readWord
  rw [List.takeWhile_append_of_pos hall, List.dropWhile_append_of_pos hall]
  cases rest with
  | nil => rw [List.takeWhile_nil, List.append_nil, List.dropWhile_nil]
  | cons c rest =>
    have hc : ¬ isWordChar c = true := by simp [hrest c rfl]
    rw [List.takeWhile_cons_of_neg hc, List.append_nil, List.dropWhile_cons_of_neg hc]

theorem isWord_readWord (s : List Char) : isWord (.ofList (readWord s).1) = true := by
  rw [isWord, String.toList_ofList]
  exact List.all_takeWhile

/-! ### Literals -/

theorem readLiteral_close (rest : List Char) : readLiteral ('"' :: rest) = ([], rest) := by
  rw [readLiteral.eq_def]
  rfl

theorem readLiteral_pair (e : Char) (rest : List Char) :
    readLiteral ('\\' :: e :: rest)
      = (unescape e :: (readLiteral rest).1, (readLiteral rest).2) := by
  rw [readLiteral.eq_def]
  rfl

theorem readLiteral_cons {c : Char} (hquote : c ≠ '"') (hback : c ≠ '\\') (rest : List Char) :
    readLiteral (c :: rest) = (c :: (readLiteral rest).1, (readLiteral rest).2) := by
  rw [readLiteral.eq_def]
  dsimp only
  rw [if_neg hquote, if_neg hback]

/-- Characters that are neither quotes nor backslashes stand for themselves. -/
theorem readLiteral_append {plain : List Char} (h : ∀ c ∈ plain, c ≠ '"' ∧ c ≠ '\\')
    (rest : List Char) :
    readLiteral (plain ++ rest) = (plain ++ (readLiteral rest).1, (readLiteral rest).2) := by
  induction plain with
  | nil => rfl
  | cons c plain ih =>
    obtain ⟨hquote, hback⟩ := h c List.mem_cons_self
    rw [List.cons_append, readLiteral_cons hquote hback,
      ih fun d hd => h d (List.mem_cons_of_mem c hd)]
    rfl

/-! ### Arguments -/

theorem trimStart_cons_of_isWhiteSpace {c : Char} (h : isWhiteSpace c = true) (s : List Char) :
    trimStart (c :: s) = trimStart s := List.dropWhile_cons_of_pos h

theorem trimStart_cons {c : Char} (h : isWhiteSpace c = false) (s : List Char) :
    trimStart (c :: s) = c :: s := List.dropWhile_cons_of_neg (by simp [h])

/-- The arguments depend on what comes after the white space. -/
theorem readArguments_eq (s : List Char) :
    readArguments s =
      match trimStart s with
      | [] => ([], [])
      | c :: rest =>
        if c = ')' then ([], rest)
        else if c = ';' then readArguments (skipComment rest)
        else if c = '@' then
          (.capture (.ofList (readWord rest).1) :: (readArguments (readWord rest).2).1,
            (readArguments (readWord rest).2).2)
        else if c = '"' then
          (.text (.ofList (readLiteral rest).1) :: (readArguments (readLiteral rest).2).1,
            (readArguments (readLiteral rest).2).2)
        else
          (.text (.ofList (c :: (readWord rest).1)) :: (readArguments (readWord rest).2).1,
            (readArguments (readWord rest).2).2) := by
  rw [readArguments]
  cases trimStart s with
  | nil => rfl
  | cons c rest => rfl

theorem readArguments_blank {c : Char} (h : isWhiteSpace c = true) (s : List Char) :
    readArguments (c :: s) = readArguments s := by
  rw [readArguments_eq, trimStart_cons_of_isWhiteSpace h, ← readArguments_eq]

theorem readArguments_close (rest : List Char) : readArguments (')' :: rest) = ([], rest) := by
  rw [readArguments_eq, trimStart_cons (by decide)]
  rfl

theorem readArguments_capture (rest : List Char) :
    readArguments ('@' :: rest)
      = (.capture (.ofList (readWord rest).1) :: (readArguments (readWord rest).2).1,
        (readArguments (readWord rest).2).2) := by
  rw [readArguments_eq, trimStart_cons (by decide)]
  rfl

theorem readArguments_literal (rest : List Char) :
    readArguments ('"' :: rest)
      = (.text (.ofList (readLiteral rest).1) :: (readArguments (readLiteral rest).2).1,
        (readArguments (readLiteral rest).2).2) := by
  rw [readArguments_eq, trimStart_cons (by decide)]
  rfl

/-! ### The texts around predicates -/

/-- No character that the scan reacts to is white space. -/
theorem scan_blank {c : Char} (h : isWhiteSpace c = true) (s : List Char) :
    scan (c :: s) = scan s := by
  have hne : ∀ d, isWhiteSpace d = false → c ≠ d := by
    rintro d hd rfl
    rw [h] at hd
    cases hd
  rw [scan, if_neg (hne '"' (by decide)), if_neg (hne ';' (by decide)),
    if_neg (hne '(' (by decide))]

theorem scan_blanks {blank : List Char} (h : blank.all isWhiteSpace = true) (s : List Char) :
    scan (blank ++ s) = scan s := by
  induction blank with
  | nil => rfl
  | cons c blank ih =>
    obtain ⟨hc, hblank⟩ : isWhiteSpace c = true ∧ blank.all isWhiteSpace = true := by simpa using h
    rw [List.cons_append, scan_blank hc, ih hblank]

theorem scan_predicate (s : List Char) :
    scan ('(' :: '#' :: s) = (readPredicate s).1 :: scan (readPredicate s).2 := by
  rw [scan, if_neg (by decide), if_neg (by decide), if_pos rfl]
  rfl

end PredicateText

/-! ### Names are words -/

/-- The name of a capture is a word.  A text may be anything. -/
def Argument.isWellNamed : Argument → Bool
  | capture name => PredicateText.isWord name
  | text _ => true

/-- The name of the predicate and those of its captures are words. -/
def Predicate.isWellNamed (p : Predicate) : Bool :=
  PredicateText.isWord p.name && p.arguments.all Argument.isWellNamed

namespace PredicateText

theorem isWellNamed_readArguments (s : List Char) :
    (readArguments s).1.all Argument.isWellNamed = true := by
  fun_induction readArguments s with
  | case1 => rfl
  | case2 => rfl
  | case3 s rest h _ ih => exact ih
  | case4 s rest word more h _ _ ih =>
    rw [List.all_cons, ih, Bool.and_true]
    exact isWord_readWord rest
  | case5 s rest literal more h _ _ _ ih =>
    rw [List.all_cons, ih, Bool.and_true]
    rfl
  | case6 s c rest h _ _ _ _ word more ih =>
    rw [List.all_cons, ih, Bool.and_true]
    rfl

theorem isWellNamed_readPredicate (s : List Char) : (readPredicate s).1.isWellNamed = true := by
  show (isWord (.ofList (readWord s).1) && (readArguments (readWord s).2).1.all _) = true
  rw [isWord_readWord, isWellNamed_readArguments, Bool.and_true]

/-- **Whatever the text**, each predicate that is found in it has words for names. -/
theorem isWellNamed_of_mem_scan {s : List Char} {p : Predicate} (h : p ∈ scan s) :
    p.isWellNamed = true := by
  fun_induction scan s with
  | case1 => cases h
  | case2 rest ih => exact ih h
  | case3 rest _ ih => exact ih h
  | case4 => cases h
  | case5 rest inner htrim _ _ found ih =>
    rcases List.mem_cons.mp h with rfl | h
    · exact isWellNamed_readPredicate inner
    · exact ih h
  | case6 rest d inner htrim _ _ _ ih => exact ih h
  | case7 c rest _ _ _ ih => exact ih h

end PredicateText

end SyntaxView
