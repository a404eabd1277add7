import SyntaxView.Proofs.PredicateReader

/-!
# Predicates read back

The writer of a predicate quotes its texts by the rules of `Text.Quoted`; the reader has rules of
its own for what comes after a backslash.  The two agree on the short escapes.  A character that is
written by its code point is read back as the letter `u` and the code point in braces
(`readLiteral_escape`), so a text comes back as `Quoted.reread` of it, and no text ends early.

* `scan_written`: predicates that are written one after the other, with white space between them,
  are read back one by one, each as `Predicate.reread` of itself.
* `reread_eq_self_iff`, for a text, an argument and a predicate: what is written by code points is
  longer when it is read back, so it comes back as it was if and only if there is none of it.
* `Predicate.allIn_written` puts this together.
-/

namespace SyntaxView

/-! ### Characters -/

namespace Text.Quoted

/-- The code point of a character in braces, after the letter `u`. -/
def codePoint (c : Char) : List Char := ['u', '\x7b'] ++ hexDigits c.toNat ++ ['\x7d']

/-- The character is written by its code point. -/
def isWrittenByCodePoint (c : Char) : Bool := escape c == '\\' :: codePoint c

theorem length_codePoint (c : Char) : 3 ≤ (codePoint c).length := by
  simp only [codePoint, List.length_append, List.length_cons, List.length_nil]
  omega

theorem isWrittenByCodePoint_eq_false {c : Char} (h : (escape c).length ≤ 2) :
    isWrittenByCodePoint c = false := by
  have hlen := length_codePoint c
  refine beq_eq_false_iff_ne.mpr fun heq => ?_
  rw [heq, List.length_cons] at h
  omega

/-- **The three ways to write a character**: by its code point, by another character after a
backslash that the reader takes for it, and as it is. -/
theorem escape_cases (c : Char) :
    (isWrittenByCodePoint c = true ∧ escape c = '\\' :: codePoint c) ∨
    (isWrittenByCodePoint c = false ∧
      ((∃ e, escape c = ['\\', e] ∧ PredicateText.unescape e = c) ∨
        escape c = [c] ∧ c ≠ '"' ∧ c ≠ '\\')) := by
  by_cases hshort : c ∈ ['"', '\\', '\n', '\t', '\r', '\x00']
  · have hpair : ∃ e, escape c = ['\\', e] ∧ PredicateText.unescape e = c := by
      simp only [List.mem_cons, List.not_mem_nil, or_false] at hshort
      rcases hshort with rfl | rfl | rfl | rfl | rfl | rfl
      all_goals exact ⟨_, rfl, rfl⟩
    obtain ⟨e, hescape, he⟩ := hpair
    exact .inr ⟨isWrittenByCodePoint_eq_false (by rw [hescape]; exact Nat.le_refl 2),
      .inl ⟨e, hescape, he⟩⟩
  · simp only [List.mem_cons, List.not_mem_nil, or_false, not_or] at hshort
    obtain ⟨hquote, hback, hline, htab, hreturn, hnul⟩ := hshort
    have hescape : escape c = if isByCodePoint c then '\\' :: codePoint c else [c] := by
      rw [escape, if_neg hquote, if_neg hback, if_neg hline, if_neg htab, if_neg hreturn,
        if_neg hnul]
      rfl
    by_cases hcode : isByCodePoint c = true
    · rw [if_pos hcode] at hescape
      exact .inl ⟨beq_iff_eq.mpr hescape, hescape⟩
    · rw [if_neg hcode] at hescape
      exact .inr ⟨isWrittenByCodePoint_eq_false (by rw [hescape]; exact Nat.le_succ 1),
        .inr ⟨hescape, hquote, hback⟩⟩

theorem ne_of_mem_hexDigits {n : Nat} {c : Char} (h : c ∈ hexDigits n) : c ≠ '"' ∧ c ≠ '\\' := by
  induction n using Nat.strongRecOn with
  | ind n ih =>
    have hdigit : ∀ d < 16, Nat.digitChar d ≠ '"' ∧ Nat.digitChar d ≠ '\\' := by decide
    rw [hexDigits, Nat.toDigits_eq_if (by decide)] at h
    by_cases hn : n < 16
    · rw [if_pos hn, List.mem_singleton] at h
      rw [h]
      exact hdigit n hn
    · rw [if_neg hn, List.mem_append, List.mem_singleton] at h
      rcases h with h | rfl
      · exact ih (n / 16) (by omega) h
      · exact hdigit (n % 16) (Nat.mod_lt n (by decide))

theorem ne_of_mem_codePoint {c d : Char} (h : d ∈ codePoint c) : d ≠ '"' ∧ d ≠ '\\' := by
  rw [codePoint, List.mem_append, List.mem_append] at h
  rcases h with (h | h) | h
  · have hleft : ∀ d ∈ ['u', '\x7b'], d ≠ '"' ∧ d ≠ '\\' := by simp
    exact hleft d h
  · exact ne_of_mem_hexDigits h
  · rw [List.mem_singleton.mp h]
    decide

/-- What a written character is read back as. -/
def rereadChar (c : Char) : List Char := if isWrittenByCodePoint c then codePoint c else [c]

/-- What a quoted text is read back as. -/
def reread (s : List Char) : List Char := s.flatMap rereadChar

theorem rereadChar_of_true {c : Char} (h : isWrittenByCodePoint c = true) :
    rereadChar c = codePoint c := if_pos h

theorem rereadChar_of_false {c : Char} (h : isWrittenByCodePoint c = false) :
    rereadChar c = [c] := if_neg (by simp [h])

theorem length_le_length_reread (s : List Char) : s.length ≤ (reread s).length := by
  induction s with
  | nil => exact Nat.le_refl 0
  | cons c s ih =>
    have hc : 1 ≤ (rereadChar c).length := by
      cases h : isWrittenByCodePoint c with
      | true =>
        rw [rereadChar_of_true h]
        exact Nat.le_trans (by decide) (length_codePoint c)
      | false =>
        rw [rereadChar_of_false h]
        exact Nat.le_refl 1
    rw [reread] at ih
    rw [reread, List.flatMap_cons, List.length_append, List.length_cons]
    omega

/-- A text comes back as it was if and only if nothing in it is written by its code point. -/
theorem reread_eq_self_iff (s : List Char) :
    reread s = s ↔ ∀ c ∈ s, isWrittenByCodePoint c = false := by
  induction s with
  | nil => exact ⟨fun _ _ hc => absurd hc List.not_mem_nil, fun _ => rfl⟩
  | cons c s ih =>
    have hcons : reread (c :: s) = rereadChar c ++ reread s := List.flatMap_cons
    rw [hcons, List.forall_mem_cons]
    cases h : isWrittenByCodePoint c with
    | false =>
      rw [rereadChar_of_false h, List.singleton_append, List.cons.injEq, ih]
      simp
    | true =>
      -- the code point alone is longer than the character, and the rest is no shorter
      rw [rereadChar_of_true h]
      constructor
      · intro heq
        have hlen := congrArg List.length heq
        have hcode := length_codePoint c
        have hrest := length_le_length_reread s
        rw [List.length_append, List.length_cons] at hlen
        omega
      · intro hall
        exact absurd hall.1 (by decide)

end Text.Quoted

/-! ### Literals -/

namespace PredicateText

open Text

/-- One written character of a literal. -/
theorem readLiteral_escape (c : Char) (rest : List Char) :
    readLiteral (Quoted.escape c ++ rest)
      = (Quoted.rereadChar c ++ (readLiteral rest).1, (readLiteral rest).2) := by
  rcases Quoted.escape_cases c with ⟨hcode, hescape⟩ | ⟨hcode, hother⟩
  · -- the backslash is lost, since `u` stands for itself after it
    have hu : readLiteral ('\\' :: (Quoted.codePoint c ++ rest))
        = readLiteral (Quoted.codePoint c ++ rest) := by
      show readLiteral ('\\' :: 'u' :: _) = readLiteral ('u' :: _)
      rw [readLiteral_pair, readLiteral_cons (by decide) (by decide)]
      rfl
    rw [hescape, Quoted.rereadChar_of_true hcode, List.cons_append, hu,
      readLiteral_append fun _ => Quoted.ne_of_mem_codePoint]
  · rw [Quoted.rereadChar_of_false hcode]
    rcases hother with ⟨e, hescape, he⟩ | ⟨hescape, hquote, hback⟩
    · rw [hescape]
      show readLiteral ('\\' :: e :: rest) = _
      rw [readLiteral_pair, he]
      rfl
    · rw [hescape]
      exact readLiteral_cons hquote hback rest

/-- **A literal** is read up to its closing quote and no further. -/
theorem readLiteral_quote (s rest : List Char) :
    readLiteral (s.flatMap Quoted.escape ++ '"' :: rest) = (Quoted.reread s, rest) := by
  induction s with
  | nil => exact readLiteral_close rest
  | cons c s ih =>
    rw [List.flatMap_cons, List.append_assoc, readLiteral_escape, ih]
    rfl

end PredicateText

/-! ### Arguments and predicates -/

/-- What a written argument is read back as. -/
def Argument.reread : Argument → Argument
  | capture name => capture name
  | text value => text (.ofList (Text.Quoted.reread value.toList))

/-- What a written predicate is read back as. -/
def Predicate.reread (p : Predicate) : Predicate := ⟨p.name, p.arguments.map Argument.reread⟩

namespace PredicateText

/-- Arguments as they are written, each after a space. -/
def writtenArguments (arguments : List Argument) : List Char :=
  arguments.flatMap fun a => ' ' :: a.render.toList

theorem toList_render (p : Predicate) :
    p.render.toList = '(' :: '#' :: (p.name.toList ++ (writtenArguments p.arguments ++ [')'])) := by
  simp [Predicate.render, writtenArguments, String.toList_join, List.flatMap_map]

/-- Arguments and a closing parenthesis end the word before them. -/
theorem endsWord_writtenArguments (arguments : List Argument) (rest : List Char) :
    EndsWord (writtenArguments arguments ++ ')' :: rest) := by
  cases arguments with
  | nil => exact endsWord_cons (by decide) rest
  | cons a arguments => exact endsWord_cons (by decide) _

theorem readArguments_writtenArguments {arguments : List Argument}
    (h : arguments.all Argument.isWellNamed = true) (rest : List Char) :
    readArguments (writtenArguments arguments ++ ')' :: rest)
      = (arguments.map Argument.reread, rest) := by
  induction arguments with
  | nil => exact readArguments_close rest
  | cons a arguments ih =>
    obtain ⟨ha, harguments⟩ : a.isWellNamed = true ∧ arguments.all Argument.isWellNamed = true := by
      simpa using h
    have hcons : writtenArguments (a :: arguments) ++ ')' :: rest
        = ' ' :: (a.render.toList ++ (writtenArguments arguments ++ ')' :: rest)) := by
      simp [writtenArguments]
    rw [hcons, readArguments_blank (by decide)]
    cases a with
    | capture name =>
      have hrender : (Argument.capture name).render.toList = '@' :: name.toList := by
        simp [Argument.render]
      rw [hrender, List.cons_append, readArguments_capture,
        readWord_append ha (endsWord_writtenArguments arguments rest), ih harguments,
        String.ofList_toList]
      rfl
    | text value =>
      have hrender : (Argument.text value).render.toList
          = '"' :: (value.toList.flatMap Text.Quoted.escape ++ ['"']) := by
        simp [Argument.render, Text.quoted, Text.Quoted.quote]
      rw [hrender, List.cons_append, List.append_assoc, List.singleton_append,
        readArguments_literal, readLiteral_quote, ih harguments]
      rfl

theorem scan_render {p : Predicate} (h : p.isWellNamed = true) (rest : List Char) :
    scan (p.render.toList ++ rest) = p.reread :: scan rest := by
  obtain ⟨hname, harguments⟩ : isWord p.name = true ∧ p.arguments.all Argument.isWellNamed = true :=
    Bool.and_eq_true_iff.mp h
  have hread : readPredicate (p.name.toList ++ (writtenArguments p.arguments ++ ')' :: rest))
      = (p.reread, rest) := by
    unfold readPredicate
    rw [readWord_append hname (endsWord_writtenArguments p.arguments rest)]
    dsimp only
    rw [readArguments_writtenArguments harguments, String.ofList_toList]
    rfl
  rw [toList_render]
  simp only [List.cons_append, List.append_assoc, List.nil_append]
  rw [scan_predicate, hread]

end PredicateText

/-! ### When everything comes back as it was -/

theorem map_eq_self_iff {α : Type} (f : α → α) (xs : List α) :
    xs.map f = xs ↔ ∀ x ∈ xs, f x = x := by
  have hid : xs.map f = xs ↔ xs.map f = xs.map id := by rw [List.map_id]
  rw [hid, List.map_inj_left]
  rfl

theorem Argument.reread_eq_self_iff (a : Argument) :
    a.reread = a ↔
      ∀ value, a = text value → ∀ c ∈ value.toList, Text.Quoted.isWrittenByCodePoint c = false := by
  cases a with
  | capture name =>
    refine ⟨fun _ value h => ?_, fun _ => rfl⟩
    cases h
  | text value =>
    have htext : (text value).reread = text value ↔
        Text.Quoted.reread value.toList = value.toList := by
      show text (.ofList _) = text value ↔ _
      rw [text.injEq, ← String.toList_inj, String.toList_ofList]
    rw [htext, Text.Quoted.reread_eq_self_iff]
    refine ⟨fun h other heq => ?_, fun h => h value rfl⟩
    obtain rfl : value = other := text.inj heq
    exact h

theorem Predicate.reread_eq_self_iff (p : Predicate) :
    p.reread = p ↔ ∀ a ∈ p.arguments, a.reread = a := by
  rw [← map_eq_self_iff]
  exact ⟨congrArg arguments, congrArg (mk p.name)⟩

/-! ### Lists of predicates -/

/-- The text has no character but white space. -/
def Text.isBlank (s : String) : Bool := s.toList.all isWhiteSpace

/-- The name of a capture, and nothing for a text. -/
def Argument.captureName? : Argument → Option String
  | capture name => some name
  | text _ => none

namespace Predicate

/-- What stays of a predicate when its texts are forgotten: its name, the number and the kinds of
its arguments, and the names of the captures. -/
def skeleton (p : Predicate) : String × List (Option String) :=
  (p.name, p.arguments.map Argument.captureName?)

theorem skeleton_reread (p : Predicate) : p.reread.skeleton = p.skeleton := by
  have hname : Argument.captureName? ∘ Argument.reread = Argument.captureName? := by
    funext a
    cases a with
    | capture name => rfl
    | text value => rfl
  show (p.name, (p.arguments.map Argument.reread).map Argument.captureName?) = _
  rw [List.map_map, hname, skeleton]

/-- Predicates as they are written one after the other, each after a text of its own. -/
def written (items : List (String × Predicate)) : String :=
  String.join (items.map fun item => item.1 ++ item.2.render)

theorem toList_written_cons (item : String × Predicate) (items : List (String × Predicate)) :
    (written (item :: items)).toList
      = item.1.toList ++ (item.2.render.toList ++ (written items).toList) := by
  rw [written, List.map_cons, String.join_cons, String.toList_append, String.toList_append,
    List.append_assoc]
  rfl

/-- **The whole text**: every predicate is found where it was written, and nothing else is. -/
theorem scan_written {items : List (String × Predicate)}
    (h : ∀ item ∈ items, Text.isBlank item.1 = true ∧ item.2.isWellNamed = true)
    (rest : List Char) :
    PredicateText.scan ((written items).toList ++ rest)
      = (items.map (·.2)).map reread ++ PredicateText.scan rest := by
  induction items with
  | nil => rfl
  | cons item items ih =>
    obtain ⟨hblank, hname⟩ := h item List.mem_cons_self
    rw [toList_written_cons, List.append_assoc, List.append_assoc,
      PredicateText.scan_blanks hblank, PredicateText.scan_render hname,
      ih fun other hother => h other (List.mem_cons_of_mem item hother)]
    rfl

/-- **Writing and reading back.**  Predicates whose names are words are written one after the
other, with white space, or nothing, before each and after the last.  They are all read back, in
order, with their names, the kinds of their arguments and the names of their captures.  They are
read back exactly as they were if and only if no text among their arguments has a character that
is written by its code point.  And what is read from any text at all has words for names, so all of
this holds of it. -/
theorem allIn_written {items : List (String × Predicate)} {last : String}
    (hitems : ∀ item ∈ items, Text.isBlank item.1 = true ∧ item.2.isWellNamed = true)
    (hlast : Text.isBlank last = true) :
    let ps := items.map (·.2)
    let found := allIn (written items ++ last)
    found.map skeleton = ps.map skeleton ∧
    (found = ps ↔ ∀ p ∈ ps, ∀ value, Argument.text value ∈ p.arguments →
      ∀ c ∈ value.toList, Text.Quoted.isWrittenByCodePoint c = false) ∧
    ∀ text, ∀ p ∈ allIn text, p.isWellNamed = true := by
  intro ps found
  have hfound : found = ps.map reread := by
    have hnone : PredicateText.scan last.toList = [] := by
      rw [← List.append_nil last.toList, PredicateText.scan_blanks hlast, PredicateText.scan]
    show PredicateText.scan (written items ++ last).toList = _
    rw [String.toList_append, scan_written hitems, hnone, List.append_nil]
  refine ⟨?_, ?_, fun text p hp => PredicateText.isWellNamed_of_mem_scan hp⟩
  · rw [hfound, List.map_map]
    exact List.map_congr_left fun p _ => skeleton_reread p
  · have hself : found = ps ↔ ∀ p ∈ ps, p.reread = p := by
      rw [hfound, map_eq_self_iff]
    rw [hself]
    constructor
    · intro h p hp value hvalue
      exact (Argument.reread_eq_self_iff _).mp (p.reread_eq_self_iff.mp (h p hp) _ hvalue) value rfl
    · intro h p hp
      refine p.reread_eq_self_iff.mpr fun a ha => a.reread_eq_self_iff.mpr ?_
      rintro value rfl
      exact h p hp value ha

/-- Two predicates with nothing between them, of odd names and with a text full of escapes, come
back as they were; a predicate with a bell in its text does not. -/
theorem allIn_written_bell :
    let odd : List (String × Predicate) :=
      [("", ⟨";\"@", [.capture "", .text "(#\"\\\n"]⟩), ("", ⟨"", []⟩)]
    let bell : List (String × Predicate) := [("\t", ⟨"eq?", [.capture "x", .text "\x07"]⟩)]
    (∀ item ∈ odd ++ bell, Text.isBlank item.1 = true ∧ item.2.isWellNamed = true) ∧
    Text.isBlank "\n" = true ∧
    allIn (written odd ++ "\n") = odd.map (·.2) ∧
    allIn (written bell ++ "\n") ≠ bell.map (·.2) := by
  intro odd bell
  have hitems : ∀ item ∈ odd ++ bell, Text.isBlank item.1 = true ∧ item.2.isWellNamed = true := by
    decide
  have hlast : Text.isBlank "\n" = true := by decide
  obtain ⟨hodd, hbell⟩ := List.forall_mem_append.mp hitems
  refine ⟨hitems, hlast, (allIn_written hodd hlast).2.1.mpr ?_, ?_⟩
  · have hplain : ("(#\"\\\n".toList.all fun c => !Text.Quoted.isWrittenByCodePoint c) = true := by
      decide +kernel
    intro p hp value hvalue c hc
    simp only [odd, List.map_cons, List.map_nil, List.mem_cons, List.not_mem_nil, or_false] at hp
    rcases hp with rfl | rfl
    · obtain rfl : value = "(#\"\\\n" := by simpa using hvalue
      simpa using List.all_eq_true.mp hplain c hc
    · cases hvalue
  · intro heq
    have hcode := (allIn_written hbell hlast).2.1.mp heq _ List.mem_cons_self "\x07"
      (by decide) '\x07' (by decide)
    exact absurd hcode (by decide +kernel)

end Predicate

end SyntaxView
