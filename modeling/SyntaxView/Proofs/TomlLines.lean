import SyntaxView.Proofs.TomlKeys

/-!
# Lines of a TOML text

What the reader makes of lines that are written in a plain way: a bare key, an equals sign with a
blank on both sides and a value, or a bare key in brackets, with any number of line ends between
them.  The values are texts in double quotes that need no escapes (`Writes.text`) and numbers
in decimal (`Writes.integer`).

Each reader takes as much as it can, so what it takes depends on what comes after it.  Here this is
always the end of the line (`EndsLine`), and a lemma about a reader says what it takes before any
such rest.  `Reads` says what the lines of a text come to; a line at the front adds what its reader
says (`Reads.assignment`, `Reads.heading`).
-/

namespace SyntaxView.Toml

open Text (isDigit hexValue? ofDigits)

/-! ### Line ends -/

/-- The text does not start with anything that is passed over before a line. -/
def StartsLine (s : List Char) : Prop :=
  ∀ c ∈ s.head?, isBlank c = false ∧ c ≠ '#' ∧ c ≠ '\n' ∧ c ≠ '\r'

/-- The text starts with a line end, or there is nothing more of it. -/
def EndsLine (s : List Char) : Prop := ∀ c ∈ s.head?, c = '\n'

theorem endsLine_lineEnds (k : Nat) : EndsLine (List.replicate k '\n') := by
  intro c hc
  exact List.eq_of_mem_replicate (List.mem_of_mem_head? hc)

theorem endsLine_cons (s : List Char) : EndsLine ('\n' :: s) := by
  intro c hc
  exact (Option.some.inj hc).symm

theorem EndsLine.endLine?_eq {s : List Char} (h : EndsLine s) : endLine? s = some s.tail := by
  cases s with
  | nil => rfl
  | cons c s =>
    obtain rfl : c = '\n' := h c rfl
    rfl

theorem skipBlanks_cons {c : Char} (h : isBlank c = false) (s : List Char) :
    skipBlanks (c :: s) = c :: s := List.dropWhile_cons_of_neg (by simp [h])

theorem StartsLine.skipTrivia_eq {s : List Char} (h : StartsLine s) (fuel : Nat) :
    skipTrivia fuel s = s := by
  cases fuel with
  | zero => rfl
  | succ fuel =>
    cases s with
    | nil => rfl
    | cons c s =>
      obtain ⟨hblank, hhash, hfeed, hreturn⟩ := h c rfl
      have hcomment : skipComment (c :: s) = c :: s := by simp [skipComment, hhash]
      have hnewline : newline? (c :: s) = none := by simp [newline?, hfeed, hreturn]
      rw [skipTrivia, skipBlanks_cons hblank, hcomment, hnewline]

/-- Line ends before a line are passed over. -/
theorem StartsLine.skipTrivia_lineEnds {s : List Char} (h : StartsLine s) {k fuel : Nat}
    (hk : k ≤ fuel) : skipTrivia fuel (List.replicate k '\n' ++ s) = s := by
  induction k generalizing fuel with
  | zero => exact h.skipTrivia_eq fuel
  | succ k ih =>
    obtain ⟨fuel, rfl⟩ : ∃ f, fuel = f + 1 := ⟨fuel - 1, by omega⟩
    rw [List.replicate_succ, List.cons_append]
    exact ih (Nat.le_of_succ_le_succ hk)

/-- A run of characters of a class, before a rest that does not go on with the class. -/
theorem takeWhile_dropWhile_append {p : Char → Bool} {s rest : List Char}
    (hs : ∀ c ∈ s, p c = true) (hrest : ∀ c ∈ rest.head?, p c = false) :
    (s ++ rest).takeWhile p = s ∧ (s ++ rest).dropWhile p = rest := by
  rw [List.takeWhile_append_of_pos hs, List.dropWhile_append_of_pos hs]
  cases rest with
  | nil => exact ⟨List.append_nil s, rfl⟩
  | cons c rest =>
    have hc : p c = false := hrest c rfl
    rw [List.takeWhile_cons_of_neg (by simp [hc]), List.dropWhile_cons_of_neg (by simp [hc])]
    exact ⟨List.append_nil s, rfl⟩

/-! ### Numbers -/

theorem isDigit_of_mem_toDigits {n : Nat} {c : Char} (h : c ∈ Nat.toDigits 10 n) :
    isDigit c = true := by
  have hdigit := Nat.isDigit_of_mem_toDigits (by decide) (by decide) h
  simpa [Char.isDigit, isDigit, Char.le_def] using hdigit

/-- The digits of a number stand for it. -/
theorem ofDigits_toDigits (n : Nat) : ofDigits 10 (Nat.toDigits 10 n) = n := by
  have hfold : ∀ (s : List Char) (init : Nat), (∀ c ∈ s, isDigit c = true) →
      s.foldl (fun n c => n * 10 + (hexValue? c).getD 0) init = Nat.ofDigitChars 10 s init := by
    intro s
    induction s with
    | nil =>
      intro init _
      rfl
    | cons c s ih =>
      intro init hs
      obtain ⟨hc, hs⟩ := List.forall_mem_cons.mp hs
      have hvalue : hexValue? c = some (c.toNat - '0'.toNat) := by
        unfold hexValue?
        rw [if_pos hc]
      rw [List.foldl_cons, ih _ hs, Nat.ofDigitChars_cons, hvalue, Option.getD_some,
        Nat.mul_comm]
  rw [ofDigits, hfold _ _ fun c hc => isDigit_of_mem_toDigits hc]
  exact Nat.ofDigitChars_toDigits (by decide) (by decide)

/-- The digits of a number have no zero at the front, unless the number is zero. -/
theorem exists_toDigits_eq_cons {n : Nat} (h : 0 < n) :
    ∃ c s, Nat.toDigits 10 n = c :: s ∧ c ≠ '0' := by
  induction n using Nat.strongRecOn with
  | _ n ih =>
    rw [Nat.toDigits_eq_if (by decide)]
    by_cases hn : n < 10
    · rw [if_pos hn]
      have hall : ∀ n < 10, 0 < n → Nat.digitChar n ≠ '0' := by decide
      exact ⟨_, [], rfl, hall n hn h⟩
    · rw [if_neg hn]
      obtain ⟨c, s, hcs, hc⟩ := ih (n / 10) (by omega) (by omega)
      exact ⟨c, s ++ [(n % 10).digitChar], by rw [hcs, List.cons_append], hc⟩

/-- Digits without an underscore are all taken. -/
theorem digits?_eq_self {isDigit : Char → Bool} (hmark : isDigit '_' = false) {s : List Char}
    (hne : s ≠ []) (hs : ∀ c ∈ s, isDigit c = true) : digits? isDigit s = some s := by
  fun_induction digits? isDigit s with
  | case1 => exact absurd rfl hne
  | case2 c hc => rfl
  | case3 c hc => exact absurd (hs c List.mem_cons_self) hc
  | case4 c s hc ih =>
    have hunderscore := hs '_' (List.mem_cons_of_mem _ List.mem_cons_self)
    rw [hmark] at hunderscore
    cases hunderscore
  | case5 c s hc => exact absurd (hs c List.mem_cons_self) hc
  | case6 c s hnil hunderscore hc ih =>
    rw [ih (by simpa using hnil) (List.forall_mem_cons.mp hs).2]
    rfl
  | case7 c s hnil hunderscore hc => exact absurd (hs c List.mem_cons_self) hc

theorem wholeDigits?_toDigits (n : Nat) :
    wholeDigits? (Nat.toDigits 10 n) = some (Nat.toDigits 10 n) := by
  have hdigits : digits? isDigit (Nat.toDigits 10 n) = some (Nat.toDigits 10 n) :=
    digits?_eq_self (by decide) Nat.toDigits_ne_nil fun c hc => isDigit_of_mem_toDigits hc
  rw [wholeDigits?, hdigits]
  rcases Nat.eq_zero_or_pos n with rfl | hpos
  · rfl
  · obtain ⟨c, s, hcs, hc⟩ := exists_toDigits_eq_cons hpos
    rw [hcs, Option.bind_eq_bind, Option.bind_some]
    split
    · next heq => exact absurd (List.cons.inj heq).1 hc
    · rfl

/-- A number in decimal is an integer, as far as integers go. -/
theorem integer?_toDigits {n : Nat} (h : n ≤ 0x7FFFFFFFFFFFFFFF) :
    integer? (Nat.toDigits 10 n) = some (n : Int) := by
  have hword : inWord (n : Int) = true := by
    simp [inWord]
    omega
  rcases Nat.eq_zero_or_pos n with rfl | hpos
  · rfl
  · obtain ⟨c, s, hcs, hc⟩ := exists_toDigits_eq_cons hpos
    have hdigit : isDigit c = true := isDigit_of_mem_toDigits (n := n) (by simp [hcs])
    -- the first character is neither a sign nor the zero of a prefix
    have hminus : c ≠ '-' := by
      rintro rfl
      cases hdigit
    have hplus : c ≠ '+' := by
      rintro rfl
      cases hdigit
    have hsign : splitSign (c :: s) = (false, c :: s) := by simp [splitSign, hminus, hplus]
    have hwhole := wholeDigits?_toDigits n
    have hvalue := ofDigits_toDigits n
    rw [hcs] at hwhole hvalue ⊢
    simp [integer?, hc, hsign, hwhole, hvalue, hword]

theorem EndsLine.splitRun_toDigits {rest : List Char} (h : EndsLine rest) (n : Nat) :
    splitRun (Nat.toDigits 10 n ++ rest) = (Nat.toDigits 10 n, rest) := by
  have hrun : ∀ c ∈ Nat.toDigits 10 n, isRunChar c = true := by
    intro c hc
    have hdigit := isDigit_of_mem_toDigits hc
    simp only [isDigit, Bool.and_eq_true, decide_eq_true_eq] at hdigit
    simp [isRunChar, isBareKeyChar, hdigit]
  have hrest : ∀ c ∈ rest.head?, isRunChar c = false := by
    intro c hc
    rw [h c hc]
    rfl
  obtain ⟨htake, hdrop⟩ := takeWhile_dropWhile_append hrun hrest
  unfold splitRun
  simp only [htake, hdrop]
  -- a date goes on after a blank, and here a blank does not follow
  split
  · next heq =>
    have hblank := h ' ' rfl
    cases hblank
  · rfl

/-- A number at the end of a line is read as an integer. -/
theorem EndsLine.readBare_toDigits {rest : List Char} (h : EndsLine rest) {n : Nat}
    (hn : n ≤ 0x7FFFFFFFFFFFFFFF) :
    readBare (Nat.toDigits 10 n ++ rest) = some (.integer n, rest) := by
  have hword : ∀ word : String, word.toList.any (fun c => !isDigit c) = true →
      Nat.toDigits 10 n ≠ word.toList := by
    intro word hword heq
    obtain ⟨c, hc, hdigit⟩ := List.any_eq_true.mp hword
    rw [← heq] at hc
    simp [isDigit_of_mem_toDigits hc] at hdigit
  rw [readBare, h.splitRun_toDigits]
  simp only [hword "true" (by decide), hword "false" (by decide), if_false, integer?_toDigits hn]

/-! ### Texts in quotes -/

/-- Every character stands for itself in a text in double quotes. -/
def IsUnescaped (s : List Char) : Prop := ∀ c ∈ s, isPlain c = true ∧ c ≠ '"' ∧ c ≠ '\\'

theorem IsUnescaped.readBasic_eq {s : List Char} (h : IsUnescaped s) {fuel : Nat}
    (hfuel : s.length < fuel) (rest : List Char) :
    readBasic fuel (s ++ '"' :: rest) = some (s, rest) := by
  induction s generalizing fuel with
  | nil =>
    obtain ⟨fuel, rfl⟩ : ∃ f, fuel = f + 1 := ⟨fuel - 1, by omega⟩
    rfl
  | cons c s ih =>
    obtain ⟨⟨hplain, hquote, hslash⟩, hs⟩ := List.forall_mem_cons.mp h
    rw [List.length_cons] at hfuel
    obtain ⟨fuel, rfl⟩ : ∃ f, fuel = f + 1 := ⟨fuel - 1, by omega⟩
    rw [List.cons_append, readBasic, if_neg hquote, if_neg hslash, if_pos hplain,
      ih hs (by omega)]
    rfl

theorem IsUnescaped.readString_eq {s : List Char} (h : IsUnescaped s) (hne : s ≠ [])
    (rest : List Char) : readString ('"' :: (s ++ '"' :: rest)) = some (s, rest) := by
  obtain ⟨c, t, rfl⟩ := List.exists_cons_of_ne_nil hne
  have hquote : c ≠ '"' := (h c List.mem_cons_self).2.1
  -- a text that is not empty does not start with three quotes
  have hline : readString ('"' :: (c :: t ++ '"' :: rest))
      = readLine ('"' :: (c :: t ++ '"' :: rest)) := by
    simp [readString, hquote]
  rw [hline, readLine]
  refine h.readBasic_eq ?_ rest
  simp only [List.length_append, List.length_cons]
  omega

/-! ### Values -/

/-- The characters `s` write the value, at the end of a line. -/
structure Writes (s : List Char) (value : Value) : Prop where
  head : ∃ c t, s = c :: t ∧ isBlank c = false
  read : ∀ rest, EndsLine rest →
    readItem maxDepth (s ++ rest) = some ((.between (s ++ rest) rest, value), rest)

theorem Writes.text {s : List Char} (h : IsUnescaped s) (hne : s ≠ []) :
    Writes ('"' :: (s ++ ['"'])) (.text (.ofList s)) := by
  refine ⟨⟨'"', s ++ ['"'], rfl, rfl⟩, fun rest _ => ?_⟩
  have hshape : '"' :: (s ++ ['"']) ++ rest = '"' :: (s ++ '"' :: rest) := by simp
  rw [hshape, readItem]
  · simp [h.readString_eq hne]
  · decide
  · decide

theorem Writes.integer {n : Nat} (h : n ≤ 0x7FFFFFFFFFFFFFFF) :
    Writes (Nat.toDigits 10 n) (.integer n) := by
  obtain ⟨c, s, hcs⟩ := List.exists_cons_of_ne_nil (Nat.toDigits_ne_nil (n := n) (b := 10))
  have hdigit : isDigit c = true := isDigit_of_mem_toDigits (n := n) (by simp [hcs])
  have hne : ∀ d, isDigit d = false → c ≠ d := by
    rintro d hd rfl
    rw [hdigit] at hd
    cases hd
  constructor
  · refine ⟨c, s, hcs, ?_⟩
    simp [isBlank, hne ' ' (by decide), hne '\t' (by decide)]
  · intro rest hrest
    have hbare := hrest.readBare_toDigits h
    rw [hcs] at hbare ⊢
    rw [List.cons_append] at hbare ⊢
    rw [readItem]
    · simp [hne '"' (by decide), hne '\'' (by decide), hbare]
    · exact hne '[' (by decide)
    · exact hne '\x7b' (by decide)

/-! ### Keys -/

/-- The key needs no quotes. -/
def IsBare (key : String) : Prop := key ≠ "" ∧ key.toList.all isBareKeyChar = true

instance (key : String) : Decidable (IsBare key) :=
  inferInstanceAs (Decidable (key ≠ "" ∧ key.toList.all isBareKeyChar = true))

/-- A bare key has a first character, and this is a character of bare keys. -/
theorem IsBare.exists_eq_cons {key : String} (h : IsBare key) :
    ∃ c t, key.toList = c :: t ∧ ∀ d, isBareKeyChar d = false → c ≠ d := by
  obtain ⟨c, t, hct⟩ := List.exists_cons_of_ne_nil (show key.toList ≠ [] by simpa using h.1)
  have hc : isBareKeyChar c = true := List.all_eq_true.mp h.2 c (by simp [hct])
  refine ⟨c, t, hct, ?_⟩
  rintro d hd rfl
  rw [hc] at hd
  cases hd

/-- A bare key with something after it that is neither a part of it nor, blanks apart, a dot. -/
theorem IsBare.readDottedKey_eq {key : String} (h : IsBare key) {rest : List Char}
    (hrest : ∀ c ∈ rest.head?, isBareKeyChar c = false)
    (hdot : ∀ c ∈ (skipBlanks rest).head?, c ≠ '.') :
    readDottedKey (key.toList ++ rest)
      = some (([], ⟨key, .between (key.toList ++ rest) rest⟩), skipBlanks rest) := by
  obtain ⟨htake, hdrop⟩ := takeWhile_dropWhile_append (List.all_eq_true.mp h.2) hrest
  have hempty : key.toList.isEmpty = false := by simpa using h.1
  have hsimple : readSimpleKey (key.toList ++ rest)
      = some (⟨key, .between (key.toList ++ rest) rest⟩, rest) := by
    unfold readSimpleKey
    simp only [htake, hdrop, hempty, Bool.false_eq_true, if_false, String.ofList_toList]
  have hkeys : readKeys ((key.toList ++ rest).length + 1) (key.toList ++ rest)
      = some ([⟨key, .between (key.toList ++ rest) rest⟩], skipBlanks rest) := by
    rw [readKeys, hsimple, Option.bind_eq_bind, Option.bind_some]
    dsimp only
    split
    · next more heq => exact absurd rfl (hdot '.' (by rw [heq]; rfl))
    · rfl
  rw [readDottedKey, hkeys]
  rfl

/-! ### Tables -/

namespace Entries

variable {es : Entries} {key : Key} {item : Item}

theorem assign_of_find?_eq_none (h : es.find? key.name = none) :
    es.assign [] key item = some (es ++ [(key, item)]) := by
  rw [assign, h]
  rfl

theorem openTable_of_find?_eq_none (h : es.find? key.name = none) (span : Span) :
    es.openTable key span = some (es ++ [(key, span, .table .header [])]) := by
  rw [openTable, h]

theorem find?_concat {name : String} (h : es.find? name = none) :
    find? (es ++ [(key, item)]) name = if key.name = name then some item else none := by
  have hes : List.find? (fun entry => entry.1.name == name) es = none := by
    simpa [find?] using h
  by_cases hkey : key.name = name
  · simp [find?, List.find?_append, hes, hkey]
  · simp [find?, List.find?_append, hes, hkey]

theorem replace_concat (h : es.find? key.name = none) (item' : Item) :
    replace (es ++ [(key, item)]) key.name item' = es ++ [(key, item')] := by
  -- no other entry has the name
  have hes : es.map (fun e => if e.1.name == key.name then (e.1, item') else e) = es.map id := by
    refine List.map_congr_left fun entry hentry => if_neg ?_
    intro hname
    rw [find?_eq_none, ← beq_iff_eq.mp hname] at h
    exact h (mem_names_of_mem hentry)
  rw [replace, List.map_append, hes, List.map_id]
  simp

/-- A change of the table that was opened last. -/
theorem changeAt_concat (h : es.find? key.name = none) {span : Span} {inner inner' : Entries}
    {change : Entries → Option Entries} (hchange : change inner = some inner') :
    changeAt [key] change (es ++ [(key, span, .table .header inner)])
      = some (es ++ [(key, span, .table .header inner')]) := by
  have hfind : find? (es ++ [(key, span, .table .header inner)]) key.name
      = some (span, .table .header inner) := by
    rw [find?_concat h, if_pos rfl]
  rw [changeAt, hfind]
  show ((changeAt [] change inner).bind fun inner => _) = _
  rw [changeAt, hchange]
  exact congrArg some (replace_concat h _)

end Entries

/-! ### Lines -/

/-- The line that gives a key a value. -/
def assignmentLine (key : String) (value : List Char) : List Char :=
  key.toList ++ ' ' :: '=' :: ' ' :: value

/-- The line that opens a table. -/
def headingLine (key : String) : List Char := '[' :: (key.toList ++ [']'])

section

variable {key : String} {s rest : List Char} {value : Value} {draft : Draft} {entries : Entries}

theorem readAssignment_assignmentLine (hkey : IsBare key) (hs : Writes s value)
    (hrest : EndsLine rest)
    (hentries : draft.entries.changeAt draft.header (Entries.assign []
      ⟨key, .between (assignmentLine key s ++ rest) (' ' :: '=' :: ' ' :: (s ++ rest))⟩
      (.between (s ++ rest) rest, value)) = some entries) :
    readAssignment draft (assignmentLine key s ++ rest) = some (⟨entries, draft.header⟩, rest) := by
  have hshape : assignmentLine key s ++ rest
      = key.toList ++ ' ' :: '=' :: ' ' :: (s ++ rest) := by simp [assignmentLine]
  have hblanks : skipBlanks (' ' :: (s ++ rest)) = s ++ rest := by
    obtain ⟨c, t, rfl, hc⟩ := hs.head
    exact skipBlanks_cons hc (t ++ rest)
  have hread : readDottedKey (key.toList ++ ' ' :: '=' :: ' ' :: (s ++ rest)) = some
      (([], ⟨key, .between (key.toList ++ ' ' :: '=' :: ' ' :: (s ++ rest))
        (' ' :: '=' :: ' ' :: (s ++ rest))⟩), '=' :: ' ' :: (s ++ rest)) := by
    refine hkey.readDottedKey_eq ?_ ?_
    · rintro c ⟨⟩
      decide
    · rintro c ⟨⟩
      decide
  rw [hshape] at hentries ⊢
  rw [readAssignment, hread, Option.bind_eq_bind, Option.bind_some]
  show (readItem maxDepth (skipBlanks (' ' :: (s ++ rest)))).bind _ = _
  rw [hblanks, hs.read rest hrest]
  show (draft.entries.changeAt draft.header (Entries.assign [] _ (_, value))).bind _ = _
  rw [hentries]
  rfl

theorem readHeader_headingLine (hkey : IsBare key)
    (hentries : draft.entries.openTable ⟨key, .between (key.toList ++ ']' :: rest) (']' :: rest)⟩
      (.between (headingLine key ++ rest) rest) = some entries) :
    readHeader draft (headingLine key ++ rest)
      = some (⟨entries, [⟨key, .between (key.toList ++ ']' :: rest) (']' :: rest)⟩]⟩, rest) := by
  have hshape : headingLine key ++ rest = '[' :: (key.toList ++ ']' :: rest) := by
    simp [headingLine]
  obtain ⟨c, t, hct, hne⟩ := hkey.exists_eq_cons
  have hblanks : skipBlanks (key.toList ++ ']' :: rest) = key.toList ++ ']' :: rest := by
    rw [hct]
    refine skipBlanks_cons ?_ _
    simp [isBlank, hne ' ' (by decide), hne '\t' (by decide)]
  have hread : readDottedKey (key.toList ++ ']' :: rest) = some
      (([], ⟨key, .between (key.toList ++ ']' :: rest) (']' :: rest)⟩), ']' :: rest) := by
    refine hkey.readDottedKey_eq ?_ ?_
    · rintro c ⟨⟩
      decide
    · rintro c ⟨⟩
      decide
  rw [hshape] at hentries ⊢
  unfold readHeader
  split
  · next more heq =>
    -- a bare key does not start with a bracket
    rw [hct] at heq
    exact absurd (List.cons.inj (List.cons.inj heq).2).1 (hne '[' (by decide))
  · next more _ heq =>
    obtain rfl : key.toList ++ ']' :: rest = more := (List.cons.inj heq).2
    rw [hblanks, hread]
    show (draft.entries.changeAt [] (Entries.openTable _ _)).bind _ = _
    rw [Entries.changeAt, hentries]
    rfl
  · next hno => exact absurd rfl (hno _)

end

/-- What comes after a line that has other lines below it: line ends, at least one before each of
the others, and any number, be it none, after the last one. -/
def linesBelow (blank : Nat → Nat) : List (List Char) → List Char
  | [] => List.replicate (blank 0) '\n'
  | line :: lines =>
    '\n' :: (List.replicate (blank 0) '\n' ++ (line ++ linesBelow (fun i => blank (i + 1)) lines))

theorem endsLine_linesBelow (blank : Nat → Nat) (lines : List (List Char)) :
    EndsLine (linesBelow blank lines) := by
  cases lines with
  | nil => exact endsLine_lineEnds (blank 0)
  | cons line lines => exact endsLine_cons _

theorem suffix_linesBelow (blank : Nat → Nat) (line : List Char) (lines : List (List Char)) :
    line ++ linesBelow (fun i => blank (i + 1)) lines <:+ linesBelow blank (line :: lines) :=
  (List.suffix_append _ _).trans (List.suffix_cons _ _)

/-! ### Texts -/

/-- The lines of the text, added to the draft, make up the document. -/
def Reads (draft : Draft) (s : List Char) (document : Entries) : Prop :=
  ∀ fuel, s.length < fuel → readLines fuel draft s = some document

theorem Reads.lineEnds (draft : Draft) (k : Nat) :
    Reads draft (List.replicate k '\n') draft.entries := by
  intro fuel hfuel
  obtain ⟨fuel, rfl⟩ : ∃ f, fuel = f + 1 := ⟨fuel - 1, by omega⟩
  have hnothing : StartsLine [] := by
    rintro c ⟨⟩
  have htrivia := hnothing.skipTrivia_lineEnds (k := k) (Nat.le_refl k)
  rw [List.append_nil] at htrivia
  unfold readLines
  simp only [List.length_replicate, htrivia]

/-- Below the last line there is nothing more to read. -/
theorem Reads.linesBelow_nil (draft : Draft) (blank : Nat → Nat) :
    Reads draft (linesBelow blank []).tail draft.entries := by
  rw [linesBelow, List.tail_replicate]
  exact Reads.lineEnds draft (blank 0 - 1)

section

variable {draft draft' : Draft} {document : Entries} {c : Char} {s t : List Char}

/-- A line at the front of a text, be it an assignment or a heading, with line ends before it. -/
theorem Reads.line (hstart : StartsLine (c :: s))
    (hread : (if c = '[' then readHeader draft (c :: s) else readAssignment draft (c :: s))
      = some (draft', t))
    (ht : EndsLine t) (hlength : t.length ≤ s.length) (hrest : Reads draft' t.tail document)
    (k : Nat) : Reads draft (List.replicate k '\n' ++ c :: s) document := by
  intro fuel hfuel
  obtain ⟨fuel, rfl⟩ : ∃ f, fuel = f + 1 := ⟨fuel - 1, by omega⟩
  rw [List.length_append, List.length_replicate, List.length_cons] at hfuel
  have htrivia : skipTrivia (List.replicate k '\n' ++ c :: s).length
      (List.replicate k '\n' ++ c :: s) = c :: s := by
    refine hstart.skipTrivia_lineEnds ?_
    rw [List.length_append, List.length_replicate]
    exact Nat.le_add_right _ _
  -- what is left after the line is shorter than the line with it
  have hfuel' : t.tail.length < fuel := by
    rw [List.length_tail]
    omega
  have hnext : (endLine? t).bind (readLines fuel draft') = some document := by
    rw [ht.endLine?_eq]
    exact hrest fuel hfuel'
  unfold readLines
  simp only [htrivia]
  split at hread
  · rw [if_pos ‹c = '['›, hread]
    exact hnext
  · rw [if_neg ‹¬ c = '['›, hread]
    exact hnext

end

section

variable {key : String} {s rest : List Char} {value : Value} {draft : Draft}
  {entries document : Entries}

theorem Reads.assignment (hkey : IsBare key) (hs : Writes s value) (hrest : EndsLine rest)
    (hentries : draft.entries.changeAt draft.header (Entries.assign []
      ⟨key, .between (assignmentLine key s ++ rest) (' ' :: '=' :: ' ' :: (s ++ rest))⟩
      (.between (s ++ rest) rest, value)) = some entries)
    (hreads : Reads ⟨entries, draft.header⟩ rest.tail document) (k : Nat) :
    Reads draft (List.replicate k '\n' ++ (assignmentLine key s ++ rest)) document := by
  obtain ⟨c, t, hct, hne⟩ := hkey.exists_eq_cons
  have hread := readAssignment_assignmentLine hkey hs hrest hentries
  have hshape : assignmentLine key s ++ rest = c :: (t ++ ' ' :: '=' :: ' ' :: s ++ rest) := by
    simp [assignmentLine, hct]
  rw [hshape] at hread ⊢
  refine Reads.line ?_ ?_ hrest ?_ hreads k
  · rintro d ⟨⟩
    have hblank : isBlank c = false := by
      simp [isBlank, hne ' ' (by decide), hne '\t' (by decide)]
    exact ⟨hblank, hne '#' (by decide), hne '\n' (by decide), hne '\r' (by decide)⟩
  · rw [if_neg (hne '[' (by decide)), hread]
  · simp only [List.length_append]
    omega

/-- A line that gives the document a new key. -/
theorem Reads.newKey {es : Entries} (hkey : IsBare key) (hs : Writes s value)
    (hrest : EndsLine rest) (hes : es.find? key = none) :
    ∃ keySpan span, ∀ document,
      Reads ⟨es ++ [(⟨key, keySpan⟩, span, value)], []⟩ rest.tail document →
        ∀ k, Reads ⟨es, []⟩ (List.replicate k '\n' ++ (assignmentLine key s ++ rest)) document := by
  refine ⟨.between (assignmentLine key s ++ rest) (' ' :: '=' :: ' ' :: (s ++ rest)),
    .between (s ++ rest) rest, fun document hreads => Reads.assignment hkey hs hrest ?_ hreads⟩
  rw [Entries.changeAt]
  exact Entries.assign_of_find?_eq_none hes

theorem Reads.heading (hkey : IsBare key) (hrest : EndsLine rest)
    (hentries : draft.entries.openTable ⟨key, .between (key.toList ++ ']' :: rest) (']' :: rest)⟩
      (.between (headingLine key ++ rest) rest) = some entries)
    (hreads : Reads ⟨entries, [⟨key, .between (key.toList ++ ']' :: rest) (']' :: rest)⟩]⟩
      rest.tail document) (k : Nat) :
    Reads draft (List.replicate k '\n' ++ (headingLine key ++ rest)) document := by
  have hread := readHeader_headingLine hkey hentries
  have hshape : headingLine key ++ rest = '[' :: (key.toList ++ ']' :: rest) := by
    simp [headingLine]
  rw [hshape] at hread ⊢
  refine Reads.line ?_ ?_ hrest ?_ hreads k
  · rintro d ⟨⟩
    decide
  · rw [if_pos rfl, hread]
  · simp only [List.length_append, List.length_cons]
    omega

end

/-- A text that does not start with a byte order mark is read from its first character on. -/
theorem Reads.read?_eq {s : List Char} {document : Entries} (h : Reads ⟨[], []⟩ s document)
    (hmark : s.head? ≠ some '\uFEFF') : read? s = some document := by
  have hskip : skipMark s = s := by
    unfold skipMark
    split
    · exact absurd rfl hmark
    · rfl
  unfold read?
  rw [hskip]
  exact h _ (Nat.lt_succ_self _)

end SyntaxView.Toml
