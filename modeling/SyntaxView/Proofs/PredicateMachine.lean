import SyntaxView.Query.Predicate

/-!
# The reader of predicates, one character at a time

The readers of `PredicateText` call one another and hand on what is left of the text, so none of
them can be asked where it stands in the middle of a text.  Here the same reading is done by a
machine that takes one character at a time.  Its state (`Mode`) says what the machine is in the
middle of, together with what it has read of a form so far; a step gives the predicates that the
character settles, which is one if it closes a form and none otherwise.

A word ends before a character that is no part of it.  This character is then read as the first
one of what follows, so the machine never looks ahead.

Literals, comments and words are read in more than one mode: inside forms and outside of them, as
the name of a form and as an argument.  What is common to these modes is said once
(`ReadsLiteral`, `SkipsComment`, `ReadsWord`), and so is what follows from it.

* `run_append`: reading two texts, one after the other, is reading the second from the mode that
  the first leaves.
* `scan_eq_run`: the machine finds what `scan` finds, on every text.  The machine in the mode of a
  reader goes on as it would after it on what the reader leaves; this is one lemma for each reader,
  by induction along it.
-/

namespace SyntaxView.PredicateText

open Text

/-! ### The machine -/

/-- What the machine is in the middle of among the arguments of a form. -/
inductive Part where
  /-- Nothing: the next character may start an argument. -/
  | gap
  | comment
  /-- A word: the name of a capture after its `@`, or else a bare word. -/
  | word (capture : Bool) (read : List Char)
  /-- A literal after its opening quote; `escaped` says that the last character is a backslash that
  belongs to the next one. -/
  | literal (escaped : Bool) (read : List Char)
  deriving Repr, DecidableEq

/-- What the machine is in the middle of. -/
inductive Mode where
  /-- Nothing: the next character starts an item. -/
  | between
  /-- A literal outside of forms, with `escaped` as in `Part.literal`. -/
  | literal (escaped : Bool)
  | comment
  /-- An opening parenthesis and the white space after it. -/
  | opened
  /-- The name of a form. -/
  | heading (read : List Char)
  /-- The arguments of a form. -/
  | form (name : List Char) (arguments : List Argument) (part : Part)
  deriving Repr, DecidableEq

/-- The argument that a word is. -/
def wordArgument (capture : Bool) (word : List Char) : Argument :=
  if capture then .capture (.ofList word) else .text (.ofList word)

/-- The arguments that the part comes to if the text ends here. -/
def Part.arguments : Part → List Argument
  | gap => []
  | comment => []
  | word capture read => [wordArgument capture read]
  | literal _ read => [.text (.ofList read)]

namespace Mode

/-- The mode after the first character of an item. -/
def start (c : Char) : Mode :=
  if c = '"' then literal false else if c = ';' then comment else if c = '(' then opened else between

/-- One character in a place where an argument may start. -/
def argument (name : List Char) (arguments : List Argument) (c : Char) : List Predicate × Mode :=
  if isWhiteSpace c then ([], form name arguments .gap)
  else if c = ')' then ([⟨.ofList name, arguments⟩], between)
  else if c = ';' then ([], form name arguments .comment)
  else if c = '@' then ([], form name arguments (.word true []))
  else if c = '"' then ([], form name arguments (.literal false []))
  else ([], form name arguments (.word false [c]))

/-- One character: the predicates it settles, and the mode after it. -/
def step : Mode → Char → List Predicate × Mode
  | between, c => ([], start c)
  | literal true, _ => ([], literal false)
  | literal false, c => ([], if c = '"' then between else literal (c == '\\'))
  | comment, c => ([], if c = '\n' then between else comment)
  | opened, c => ([], if isWhiteSpace c then opened else if c = '#' then heading [] else start c)
  | heading read, c => if isWordChar c then ([], heading (read ++ [c])) else argument read [] c
  | form name arguments .gap, c => argument name arguments c
  | form name arguments .comment, c =>
    ([], form name arguments (if c = '\n' then .gap else .comment))
  | form name arguments (.word capture read), c =>
    if isWordChar c then ([], form name arguments (.word capture (read ++ [c])))
    else argument name (arguments ++ [wordArgument capture read]) c
  | form name arguments (.literal true read), c =>
    ([], form name arguments (.literal false (read ++ [unescape c])))
  | form name arguments (.literal false read), c =>
    if c = '"' then ([], form name (arguments ++ [.text (.ofList read)]) .gap)
    else if c = '\\' then ([], form name arguments (.literal true read))
    else ([], form name arguments (.literal false (read ++ [c])))

/-- What the end of the text settles: a form that is not closed ends with the text. -/
def finish : Mode → List Predicate
  | heading read => [⟨.ofList read, []⟩]
  | form name arguments part => [⟨.ofList name, arguments ++ part.arguments⟩]
  | _ => []

/-- A text: the predicates that its characters settle, and the mode after it. -/
def trace : Mode → List Char → List Predicate × Mode
  | m, [] => ([], m)
  | m, c :: s => ((m.step c).1 ++ (trace (m.step c).2 s).1, (trace (m.step c).2 s).2)

/-- The mode after a text. -/
def after (m : Mode) (s : List Char) : Mode := (m.trace s).2

/-- The predicates of a text that is read from a mode on. -/
def run (m : Mode) (s : List Char) : List Predicate := (m.trace s).1 ++ (m.after s).finish

/-! ### Characters and texts -/

theorem trace_cons (m : Mode) (c : Char) (s : List Char) :
    m.trace (c :: s)
      = ((m.step c).1 ++ ((m.step c).2.trace s).1, ((m.step c).2.trace s).2) := rfl

/-- A character that settles nothing only changes the mode. -/
theorem trace_of_step {m n : Mode} {c : Char} (h : m.step c = ([], n)) (s : List Char) :
    m.trace (c :: s) = n.trace s := by
  rw [trace_cons, h]
  rfl

theorem run_of_step {m n : Mode} {c : Char} (h : m.step c = ([], n)) (s : List Char) :
    m.run (c :: s) = n.run s := by
  rw [run, after, trace_of_step h]
  rfl

theorem run_cons (m : Mode) (c : Char) (s : List Char) :
    m.run (c :: s) = (m.step c).1 ++ (m.step c).2.run s := by
  rw [run, after, trace_cons, List.append_assoc]
  rfl

theorem trace_append (m : Mode) (s t : List Char) :
    m.trace (s ++ t) = ((m.trace s).1 ++ ((m.after s).trace t).1, ((m.after s).trace t).2) := by
  induction s generalizing m with
  | nil => rfl
  | cons c s ih =>
    rw [List.cons_append, trace_cons, ih, trace_cons, List.append_assoc]
    rfl

theorem after_append (m : Mode) (s t : List Char) : m.after (s ++ t) = (m.after s).after t := by
  rw [after, trace_append]
  rfl

theorem run_append (m : Mode) (s t : List Char) :
    m.run (s ++ t) = (m.trace s).1 ++ (m.after s).run t := by
  rw [run, after_append, trace_append, List.append_assoc]
  rfl

/-! ### Literals -/

/-- What makes a mode one that reads a literal, `next` being the mode after its closing quote.  All
three know what of the literal has been read. -/
structure ReadsLiteral (reading escaped next : List Char → Mode) : Prop where
  quote : ∀ read, (reading read).step '"' = ([], next read)
  backslash : ∀ read, (reading read).step '\\' = ([], escaped read)
  pair : ∀ read e, (escaped read).step e = ([], reading (read ++ [unescape e]))
  plain : ∀ read c, c ≠ '"' → c ≠ '\\' → (reading read).step c = ([], reading (read ++ [c]))
  finish_reading : ∀ read, (reading read).finish = (next read).finish
  finish_escaped : ∀ read, (escaped read).finish = (next read).finish

theorem readsLiteral_between :
    ReadsLiteral (fun _ => literal false) (fun _ => literal true) (fun _ => between) where
  quote _ := rfl
  backslash _ := rfl
  pair _ _ := rfl
  plain _ c hquote hback := by simp [step, hquote, hback]
  finish_reading _ := rfl
  finish_escaped _ := rfl

theorem readsLiteral_form (name : List Char) (arguments : List Argument) :
    ReadsLiteral (fun read => form name arguments (.literal false read))
      (fun read => form name arguments (.literal true read))
      (fun read => form name (arguments ++ [.text (.ofList read)]) .gap) where
  quote _ := rfl
  backslash _ := rfl
  pair _ _ := rfl
  plain _ c hquote hback := by simp [step, hquote, hback]
  finish_reading _ := by simp [finish, Part.arguments]
  finish_escaped _ := by simp [finish, Part.arguments]

theorem ReadsLiteral.run_eq {reading escaped next : List Char → Mode}
    (h : ReadsLiteral reading escaped next) (read s : List Char) :
    (reading read).run s = (next (read ++ (readLiteral s).1)).run (readLiteral s).2 := by
  fun_induction readLiteral s generalizing read with
  | case1 =>
    rw [List.append_nil]
    exact h.finish_reading read
  | case2 rest =>
    rw [List.append_nil]
    exact run_of_step (h.quote read) rest
  | case3 =>
    rw [List.append_nil, run_of_step (h.backslash read)]
    exact h.finish_escaped read
  | case4 e rest more _ ih =>
    rw [run_of_step (h.backslash read), run_of_step (h.pair read e), ih, List.append_assoc]
    rfl
  | case5 c rest hquote hback more ih =>
    rw [run_of_step (h.plain read c hquote hback), ih, List.append_assoc]
    rfl

/-! ### Comments -/

/-- What makes a mode one that is inside a comment, `next` being the mode after its line. -/
structure SkipsComment (inside next : Mode) : Prop where
  line : inside.step '\n' = ([], next)
  other : ∀ c, c ≠ '\n' → inside.step c = ([], inside)
  finish_inside : inside.finish = next.finish

theorem skipsComment_between : SkipsComment comment between where
  line := rfl
  other c hc := by simp [step, hc]
  finish_inside := rfl

theorem skipsComment_form (name : List Char) (arguments : List Argument) :
    SkipsComment (form name arguments .comment) (form name arguments .gap) where
  line := rfl
  other c hc := by simp [step, hc]
  finish_inside := rfl

theorem SkipsComment.run_eq {inside next : Mode} (h : SkipsComment inside next) (s : List Char) :
    inside.run s = next.run (skipComment s) := by
  induction s with
  | nil => exact h.finish_inside
  | cons c s ih =>
    by_cases hc : c = '\n'
    · subst hc
      exact run_of_step h.line s
    · have hskip : skipComment (c :: s) = skipComment s := by simp [skipComment, hc]
      rw [run_of_step (h.other c hc), ih, hskip]

/-! ### Words -/

/-- What makes a mode one that reads a word: a character that is no part of the word is read as
`next` of the word reads it. -/
structure ReadsWord (reading next : List Char → Mode) : Prop where
  word : ∀ read c, isWordChar c = true → (reading read).step c = ([], reading (read ++ [c]))
  other : ∀ read c, isWordChar c = false → (reading read).step c = (next read).step c
  finish_reading : ∀ read, (reading read).finish = (next read).finish

theorem readsWord_heading : ReadsWord heading (fun word => form word [] .gap) where
  word _ c hc := by simp [step, hc]
  other _ c hc := by simp [step, hc]
  finish_reading _ := rfl

theorem readsWord_form (name : List Char) (arguments : List Argument) (capture : Bool) :
    ReadsWord (fun read => form name arguments (.word capture read))
      (fun word => form name (arguments ++ [wordArgument capture word]) .gap) where
  word _ c hc := by simp [step, hc]
  other _ c hc := by simp [step, hc]
  finish_reading _ := by simp [finish, Part.arguments]

theorem ReadsWord.run_eq {reading next : List Char → Mode} (h : ReadsWord reading next)
    (read s : List Char) :
    (reading read).run s = (next (read ++ (readWord s).1)).run (readWord s).2 := by
  induction s generalizing read with
  | nil =>
    rw [readWord, List.takeWhile_nil, List.append_nil]
    exact h.finish_reading read
  | cons c s ih =>
    by_cases hc : isWordChar c = true
    · have hread : readWord (c :: s) = (c :: (readWord s).1, (readWord s).2) := by
        simp [readWord, hc]
      rw [run_of_step (h.word read c hc), ih, hread, List.append_assoc]
      rfl
    · have hread : readWord (c :: s) = ([], c :: s) := by simp [readWord, hc]
      rw [hread, List.append_nil, run_cons, run_cons, h.other read c (by simpa using hc)]

/-! ### White space -/

/-- A mode that stays as it is at white space need not see the white space at the front. -/
theorem run_trimStart {m : Mode} (h : ∀ c, isWhiteSpace c = true → m.step c = ([], m))
    (s : List Char) : m.run (trimStart s) = m.run s := by
  induction s with
  | nil => rfl
  | cons c s ih =>
    by_cases hc : isWhiteSpace c = true
    · rw [run_of_step (h c hc), ← ih, trimStart, List.dropWhile_cons_of_pos hc]
      rfl
    · rw [trimStart, List.dropWhile_cons_of_neg hc]

theorem step_between {c : Char} (hc : c ∉ ['"', ';', '(']) : between.step c = ([], between) := by
  simp only [List.mem_cons, List.not_mem_nil, or_false, not_or] at hc
  simp [step, start, hc]

theorem step_between_of_isWhiteSpace {c : Char} (h : isWhiteSpace c = true) :
    between.step c = ([], between) := by
  refine step_between fun hc => ?_
  simp only [List.mem_cons, List.not_mem_nil, or_false] at hc
  rcases hc with rfl | rfl | rfl
  · exact absurd h (by decide)
  · exact absurd h (by decide)
  · exact absurd h (by decide)

theorem step_opened_of_isWhiteSpace {c : Char} (h : isWhiteSpace c = true) :
    opened.step c = ([], opened) := by
  simp [step, h]

theorem step_gap_of_isWhiteSpace (name : List Char) (arguments : List Argument) {c : Char}
    (h : isWhiteSpace c = true) :
    (form name arguments .gap).step c = ([], form name arguments .gap) := by
  simp [step, argument, h]

theorem isWhiteSpace_of_trimStart_eq_cons {s rest : List Char} {c : Char}
    (h : trimStart s = c :: rest) : isWhiteSpace c = false := by
  have hhead := List.head?_dropWhile_not isWhiteSpace s
  rw [show s.dropWhile isWhiteSpace = c :: rest from h] at hhead
  exact hhead

/-! ### Forms and texts -/

/-- **The arguments of a form** up to its closing parenthesis, which settles the predicate. -/
theorem run_form (name : List Char) (arguments : List Argument) (s : List Char) :
    (form name arguments .gap).run s
      = ⟨.ofList name, arguments ++ (readArguments s).1⟩ :: between.run (readArguments s).2 := by
  have htrim : ∀ arguments s,
      (form name arguments .gap).run s = (form name arguments .gap).run (trimStart s) :=
    fun arguments s => (run_trimStart (fun _ => step_gap_of_isWhiteSpace name arguments) s).symm
  -- along the reader, which drops white space and then goes by the first character
  fun_induction readArguments s generalizing arguments with
  | case1 s h =>
    rw [htrim, h]
    rfl
  | case2 s rest h =>
    rw [htrim, h, run_cons, List.append_nil]
    rfl
  | case3 s rest h _ ih =>
    rw [htrim, h, run_of_step rfl, (skipsComment_form name arguments).run_eq, ih]
  | case4 s rest word more h _ _ ih =>
    rw [htrim, h, run_of_step rfl, (readsWord_form name arguments true).run_eq, ih,
      List.append_assoc]
    rfl
  | case5 s rest literal more h _ _ _ ih =>
    rw [htrim, h, run_of_step rfl, (readsLiteral_form name arguments).run_eq, ih,
      List.append_assoc]
    rfl
  | case6 s c rest h hclose hcomment hcapture hquote word more ih =>
    have hblank : isWhiteSpace c = false := isWhiteSpace_of_trimStart_eq_cons h
    have hstep : (form name arguments .gap).step c
        = ([], form name arguments (.word false [c])) := by
      simp [step, argument, hblank, hclose, hcomment, hcapture, hquote]
    rw [htrim, h, run_of_step hstep, (readsWord_form name arguments false).run_eq, ih,
      List.append_assoc]
    rfl

/-- **The machine finds what `scan` finds.** -/
theorem scan_eq_run (s : List Char) : scan s = between.run s := by
  have htrim : ∀ s, opened.run s = opened.run (trimStart s) :=
    fun s => (run_trimStart (fun _ => step_opened_of_isWhiteSpace) s).symm
  fun_induction scan s with
  | case1 => rfl
  | case2 rest ih =>
    rw [run_of_step (n := literal false) rfl, readsLiteral_between.run_eq [], ih]
  | case3 rest _ ih => rw [run_of_step (n := comment) rfl, skipsComment_between.run_eq, ih]
  | case4 rest h _ _ =>
    -- nothing but white space after the parenthesis
    rw [run_of_step (n := opened) rfl, htrim, h]
    rfl
  | case5 rest inner found _ _ h ih =>
    rw [run_of_step (n := opened) rfl, htrim, h, run_of_step (n := heading []) rfl,
      readsWord_heading.run_eq, run_form, List.nil_append, List.nil_append, ih]
    rfl
  | case6 rest d inner h hhash _ _ ih =>
    -- no form: the character after the white space starts the next item
    have hblank : isWhiteSpace d = false := isWhiteSpace_of_trimStart_eq_cons h
    have hstep : opened.step d = between.step d := by simp [step, hblank, hhash]
    rw [run_of_step (n := opened) rfl, htrim, h, run_cons, hstep, ← run_cons, ih]
  | case7 c rest hquote hcomment hopen ih =>
    rw [run_of_step (step_between (by simp [hquote, hcomment, hopen])), ih]

end Mode

end SyntaxView.PredicateText
