import SyntaxView.Proofs.PredicateReader
import SyntaxView.Proofs.PredicateMachine

/-!
# The grammar of the texts that predicates are read from

A text is a sequence of *items*: string literals, comments, forms such as `(#eq? @a "b")`, opening
parentheses that start no form, and single characters of any other kind.  Only forms hold
predicates.  `Grammar.Items` says this without any reader: its rules put a text together from
its parts, each rule being one kind of item.  Two rules look at what comes after their item: a
parenthesis starts no form only if what follows is no `#`, and a word goes as far as it can.

* `Mode.trace_items`: the machine of `PredicateMachine` goes through the items one by one, settles
  the predicates of their forms and is left in the middle of nothing.
* `Mode.exists_items`: a text that does not leave the machine in the middle of something is a
  sequence of items.  For each thing that has an end of its own, a literal, a comment or the
  arguments of a form, either the end is there or the machine is still inside when the text is over.
* `Grammar.items_iff` puts both together.
-/

namespace SyntaxView.PredicateText

open Text

/-! ### The grammar -/

namespace Grammar

/-- What a character stands for after a backslash. -/
inductive Escape : Char → Char → Prop where
  | line : Escape 'n' '\n'
  | tab : Escape 't' '\t'
  | carriageReturn : Escape 'r' '\r'
  | nul : Escape '0' '\x00'
  | other {e : Char} (h : e ∉ ['n', 't', 'r', '0']) : Escape e e

/-- What stands between the quotes of a literal, and the text it stands for. -/
inductive Body : List Char → List Char → Prop where
  | nil : Body [] []
  | plain {c : Char} {body value : List Char} (hquote : c ≠ '"') (hback : c ≠ '\\')
      (h : Body body value) : Body (c :: body) (c :: value)
  | escape {e d : Char} {body value : List Char} (he : Escape e d) (h : Body body value) :
      Body ('\\' :: e :: body) (d :: value)

/-- `Arguments s arguments rest`: the text `s` starts with these arguments, with white space and
comments among them, and a closing parenthesis; `rest` comes after it. -/
inductive Arguments : List Char → List Argument → List Char → Prop where
  | close {rest : List Char} : Arguments (')' :: rest) [] rest
  | blank {c : Char} {s rest : List Char} {arguments : List Argument}
      (hc : isWhiteSpace c = true) (h : Arguments s arguments rest) :
      Arguments (c :: s) arguments rest
  | comment {body s rest : List Char} {arguments : List Argument} (hbody : '\n' ∉ body)
      (h : Arguments s arguments rest) : Arguments (';' :: (body ++ '\n' :: s)) arguments rest
  | capture {word s rest : List Char} {arguments : List Argument}
      (hword : word.all isWordChar = true) (hend : EndsWord s) (h : Arguments s arguments rest) :
      Arguments ('@' :: (word ++ s)) (.capture (.ofList word) :: arguments) rest
  | literal {body value s rest : List Char} {arguments : List Argument} (hbody : Body body value)
      (h : Arguments s arguments rest) :
      Arguments ('"' :: (body ++ '"' :: s)) (.text (.ofList value) :: arguments) rest
  | bare {c : Char} {word s rest : List Char} {arguments : List Argument}
      (hblank : isWhiteSpace c = false) (hc : c ∉ [')', ';', '@', '"'])
      (hword : word.all isWordChar = true) (hend : EndsWord s) (h : Arguments s arguments rest) :
      Arguments (c :: (word ++ s)) (.text (.ofList (c :: word)) :: arguments) rest

/-- `Items s ps`: the text `s` is a sequence of items, and `ps` are the predicates of the forms
among them, in order. -/
inductive Items : List Char → List Predicate → Prop where
  | nil : Items [] []
  | char {c : Char} {s : List Char} {ps : List Predicate} (hc : c ∉ ['"', ';', '('])
      (h : Items s ps) : Items (c :: s) ps
  | literal {body value s : List Char} {ps : List Predicate} (hbody : Body body value)
      (h : Items s ps) : Items ('"' :: (body ++ '"' :: s)) ps
  | comment {body s : List Char} {ps : List Predicate} (hbody : '\n' ∉ body) (h : Items s ps) :
      Items (';' :: (body ++ '\n' :: s)) ps
  | paren {s : List Char} {ps : List Predicate} (hs : (trimStart s).head? ≠ some '#')
      (h : Items s ps) : Items ('(' :: s) ps
  | form {blank word s rest : List Char} {arguments : List Argument} {ps : List Predicate}
      (hblank : blank.all isWhiteSpace = true) (hword : word.all isWordChar = true)
      (hend : EndsWord s) (hs : Arguments s arguments rest) (h : Items rest ps) :
      Items ('(' :: (blank ++ '#' :: (word ++ s))) (⟨.ofList word, arguments⟩ :: ps)

theorem Escape.unescape_eq {e d : Char} (h : Escape e d) : unescape e = d := by
  cases h with
  | line => rfl
  | tab => rfl
  | carriageReturn => rfl
  | nul => rfl
  | other h =>
    simp only [List.mem_cons, List.not_mem_nil, or_false, not_or] at h
    simp [unescape, h]

theorem escape_unescape (e : Char) : Escape e (unescape e) := by
  by_cases h : e ∈ ['n', 't', 'r', '0']
  · simp only [List.mem_cons, List.not_mem_nil, or_false] at h
    rcases h with rfl | rfl | rfl | rfl
    · exact .line
    · exact .tab
    · exact .carriageReturn
    · exact .nul
  · have hself : unescape e = e := (Escape.other h).unescape_eq
    rw [hself]
    exact .other h

/-- At least the closing parenthesis is there. -/
theorem Arguments.ne_nil {s rest : List Char} {arguments : List Argument}
    (h : Arguments s arguments rest) : s ≠ [] := by
  cases h <;> exact List.cons_ne_nil _ _

theorem Arguments.length_lt {s rest : List Char} {arguments : List Argument}
    (h : Arguments s arguments rest) : rest.length < s.length := by
  induction h with
  | close => exact Nat.lt_succ_self _
  | blank _ _ ih => exact Nat.lt_succ_of_lt ih
  | comment _ _ ih | capture _ _ _ ih | literal _ _ ih | bare _ _ _ _ _ ih =>
    simp only [List.length_cons, List.length_append]
    omega

end Grammar

open Grammar

namespace Mode

/-! ### The machine on what has an end -/

theorem after_of_step {m n : Mode} {c : Char} (h : m.step c = ([], n)) (s : List Char) :
    m.after (c :: s) = n.after s := congrArg Prod.snd (trace_of_step h s)

theorem ReadsLiteral.trace_body {reading escaped next : List Char → Mode}
    (h : ReadsLiteral reading escaped next) {body value : List Char} (hbody : Body body value)
    (read rest : List Char) :
    (reading read).trace (body ++ '"' :: rest) = (next (read ++ value)).trace rest := by
  induction hbody generalizing read with
  | nil =>
    rw [List.append_nil]
    exact trace_of_step (h.quote read) rest
  | plain hquote hback _ ih =>
    rw [List.cons_append, trace_of_step (h.plain read _ hquote hback), ih, List.append_assoc]
    rfl
  | escape he _ ih =>
    rw [List.cons_append, List.cons_append, trace_of_step (h.backslash read),
      trace_of_step (h.pair read _), ih, he.unescape_eq, List.append_assoc]
    rfl

/-- A literal has its closing quote, or the machine stays inside it. -/
theorem ReadsLiteral.closed_or_inside {reading escaped next : List Char → Mode}
    (h : ReadsLiteral reading escaped next) (s : List Char) :
    (∃ body value rest, Body body value ∧ s = body ++ '"' :: rest) ∨
    ∀ read, ∃ more, (reading read).after s = reading more ∨ (reading read).after s = escaped more := by
  -- the reader itself is not asked for, but its cases are those of the argument
  fun_induction readLiteral s with
  | case1 => exact .inr fun read => ⟨read, .inl rfl⟩
  | case2 rest => exact .inl ⟨[], [], rest, .nil, rfl⟩
  | case3 => exact .inr fun read => ⟨read, .inr (after_of_step (h.backslash read) [])⟩
  | case4 e rest more _ ih =>
    rcases ih with ⟨body, value, rest, hbody, rfl⟩ | hinside
    · exact .inl ⟨'\\' :: e :: body, _, rest, .escape (escape_unescape e) hbody, rfl⟩
    · right
      intro read
      rw [after_of_step (h.backslash read), after_of_step (h.pair read e)]
      exact hinside _
  | case5 c rest hquote hback more ih =>
    rcases ih with ⟨body, value, rest, hbody, rfl⟩ | hinside
    · exact .inl ⟨c :: body, _, rest, .plain hquote hback hbody, rfl⟩
    · right
      intro read
      rw [after_of_step (h.plain read c hquote hback)]
      exact hinside _

theorem SkipsComment.trace_body {inside next : Mode} (h : SkipsComment inside next)
    {body : List Char} (hbody : '\n' ∉ body) (rest : List Char) :
    inside.trace (body ++ '\n' :: rest) = next.trace rest := by
  induction body with
  | nil => exact trace_of_step h.line rest
  | cons c body ih =>
    have hc : c ≠ '\n' := (List.ne_of_not_mem_cons hbody).symm
    rw [List.cons_append, trace_of_step (h.other c hc), ih (List.not_mem_of_not_mem_cons hbody)]

/-- A comment has the end of its line, or the machine stays inside it. -/
theorem SkipsComment.closed_or_inside {inside next : Mode} (h : SkipsComment inside next)
    (s : List Char) :
    (∃ body rest, '\n' ∉ body ∧ s = body ++ '\n' :: rest) ∨ inside.after s = inside := by
  induction s with
  | nil => exact .inr rfl
  | cons c s ih =>
    by_cases hc : c = '\n'
    · subst hc
      exact .inl ⟨[], s, List.not_mem_nil, rfl⟩
    · rcases ih with ⟨body, rest, hbody, rfl⟩ | hinside
      · exact .inl ⟨c :: body, rest, List.not_mem_cons_of_ne_of_not_mem (Ne.symm hc) hbody, rfl⟩
      · exact .inr ((after_of_step (h.other c hc) s).trans hinside)

theorem ReadsWord.trace_word {reading next : List Char → Mode} (h : ReadsWord reading next)
    {word : List Char} (hword : word.all isWordChar = true) (read rest : List Char) :
    (reading read).trace (word ++ rest) = (reading (read ++ word)).trace rest := by
  induction word generalizing read with
  | nil => rw [List.nil_append, List.append_nil]
  | cons c word ih =>
    obtain ⟨hc, hword⟩ : isWordChar c = true ∧ word.all isWordChar = true := by simpa using hword
    rw [List.cons_append, trace_of_step (h.word read c hc), ih hword, List.append_assoc]
    rfl

/-- A word and what comes after it.  There has to be something, since at the end of the text the
machine is still inside the word. -/
theorem ReadsWord.trace_append {reading next : List Char → Mode} (h : ReadsWord reading next)
    {word rest : List Char} (hword : word.all isWordChar = true) (hend : EndsWord rest)
    (hrest : rest ≠ []) (read : List Char) :
    (reading read).trace (word ++ rest) = (next (read ++ word)).trace rest := by
  obtain ⟨c, rest, rfl⟩ := List.exists_cons_of_ne_nil hrest
  rw [h.trace_word hword, trace_cons, trace_cons, h.other _ c (hend c rfl)]

/-- Every text starts with a word that goes as far as it can. -/
theorem exists_word (s : List Char) :
    ∃ word rest, word.all isWordChar = true ∧ EndsWord rest ∧ s = word ++ rest := by
  refine ⟨s.takeWhile isWordChar, s.dropWhile isWordChar, List.all_takeWhile, ?_,
    List.takeWhile_append_dropWhile.symm⟩
  intro c hc
  have hhead := List.head?_dropWhile_not isWordChar s
  rwa [show (s.dropWhile isWordChar).head? = some c from hc] at hhead

/-! ### Forms -/

/-- **The arguments of a form** and its closing parenthesis settle its predicate. -/
theorem trace_arguments {s rest : List Char} {arguments : List Argument}
    (h : Arguments s arguments rest) (name : List Char) (before : List Argument) :
    (form name before .gap).trace s
      = (⟨.ofList name, before ++ arguments⟩ :: (between.trace rest).1, (between.trace rest).2) := by
  induction h generalizing before with
  | close =>
    rw [trace_cons, List.append_nil]
    rfl
  | blank hc _ ih => rw [trace_of_step (step_gap_of_isWhiteSpace name before hc), ih]
  | comment hbody _ ih =>
    rw [trace_of_step (n := form name before .comment) rfl,
      (skipsComment_form name before).trace_body hbody, ih]
  | capture hword hend h ih =>
    rw [trace_of_step (n := form name before (.word true [])) rfl,
      (readsWord_form name before true).trace_append hword hend h.ne_nil, ih, List.append_assoc]
    rfl
  | literal hbody _ ih =>
    rw [trace_of_step (n := form name before (.literal false [])) rfl,
      (readsLiteral_form name before).trace_body hbody, ih, List.append_assoc]
    rfl
  | @bare c word s rest arguments hblank hc hword hend h ih =>
    have hstep : (form name before .gap).step c = ([], form name before (.word false [c])) := by
      simp only [List.mem_cons, List.not_mem_nil, or_false, not_or] at hc
      simp [step, argument, hblank, hc]
    rw [trace_of_step hstep, (readsWord_form name before false).trace_append hword hend h.ne_nil,
      ih, List.append_assoc]
    rfl

/-- The arguments of a form have their closing parenthesis, or the machine is still inside the form
when the text is over. -/
def ClosedOrInside (name : List Char) (before : List Argument) (s : List Char) : Prop :=
  (∃ arguments rest, Arguments s arguments rest) ∨
  ∃ arguments part, (form name before .gap).after s = form name arguments part

section

variable {name : List Char} {before : List Argument}

/-- What is read first is put before the arguments that come after it. -/
theorem ClosedOrInside.of_trace {before' : List Argument} {s t : List Char}
    (h : ClosedOrInside name before' t)
    (htrace : (form name before .gap).trace s = (form name before' .gap).trace t)
    (hput : ∀ {arguments rest}, Arguments t arguments rest → ∃ more, Arguments s more rest) :
    ClosedOrInside name before s := by
  rcases h with ⟨arguments, rest, h⟩ | ⟨arguments, part, h⟩
  · obtain ⟨more, hmore⟩ := hput h
    exact .inl ⟨more, rest, hmore⟩
  · exact .inr ⟨arguments, part, (congrArg Prod.snd htrace).trans h⟩

theorem closedOrInside_word {c : Char} {word t : List Char} {capture : Bool} {read : List Char}
    (hlater : ∀ before', ClosedOrInside name before' t)
    (hstep : (form name before .gap).step c = ([], form name before (.word capture read)))
    (hword : word.all isWordChar = true) (hend : EndsWord t)
    (hput : ∀ {arguments rest}, Arguments t arguments rest →
      ∃ more, Arguments (c :: (word ++ t)) more rest) :
    ClosedOrInside name before (c :: (word ++ t)) := by
  by_cases ht : t = []
  · -- the text ends in the word
    refine .inr ⟨before, .word capture (read ++ word), ?_⟩
    rw [after_of_step hstep, after, (readsWord_form name before capture).trace_word hword, ht]
    rfl
  · refine (hlater (before ++ [wordArgument capture (read ++ word)])).of_trace ?_ hput
    rw [trace_of_step hstep, (readsWord_form name before capture).trace_append hword hend ht]

theorem closedOrInside_comment {s : List Char}
    (hlater : ∀ t, t.length ≤ s.length → ClosedOrInside name before t) :
    ClosedOrInside name before (';' :: s) := by
  rcases (skipsComment_form name before).closed_or_inside s with ⟨body, t, hbody, rfl⟩ | hinside
  · have hle : t.length ≤ (body ++ '\n' :: t).length := by
      rw [List.length_append, List.length_cons]
      omega
    refine (hlater t hle).of_trace ?_ fun h => ⟨_, .comment hbody h⟩
    rw [trace_of_step (n := form name before .comment) rfl,
      (skipsComment_form name before).trace_body hbody]
  · exact .inr ⟨before, .comment, (after_of_step rfl s).trans hinside⟩

theorem closedOrInside_literal {s : List Char}
    (hlater : ∀ t, t.length ≤ s.length → ∀ before', ClosedOrInside name before' t) :
    ClosedOrInside name before ('"' :: s) := by
  rcases (readsLiteral_form name before).closed_or_inside s with
    ⟨body, value, t, hbody, rfl⟩ | hinside
  · have hle : t.length ≤ (body ++ '"' :: t).length := by
      rw [List.length_append, List.length_cons]
      omega
    refine (hlater t hle (before ++ [.text (.ofList value)])).of_trace ?_ fun h =>
      ⟨_, .literal hbody h⟩
    rw [trace_of_step (n := form name before (.literal false [])) rfl,
      (readsLiteral_form name before).trace_body hbody, List.nil_append]
  · obtain ⟨read, hread | hread⟩ := hinside []
    · exact .inr ⟨before, .literal false read, (after_of_step rfl s).trans hread⟩
    · exact .inr ⟨before, .literal true read, (after_of_step rfl s).trans hread⟩

end

theorem closedOrInside (name : List Char) (before : List Argument) (s : List Char) :
    ClosedOrInside name before s := by
  induction hlen : s.length using Nat.strongRecOn generalizing s before with
  | ind n ih =>
    subst hlen
    cases s with
    | nil => exact .inr ⟨before, .gap, rfl⟩
    | cons c s =>
      have hlater : ∀ t, t.length ≤ s.length → ∀ before', ClosedOrInside name before' t :=
        fun t ht before' => ih t.length (Nat.lt_succ_of_le ht) before' t rfl
      by_cases hblank : isWhiteSpace c = true
      · exact (hlater s (Nat.le_refl _) before).of_trace
          (trace_of_step (step_gap_of_isWhiteSpace name before hblank) s)
          fun h => ⟨_, .blank hblank h⟩
      by_cases hclose : c = ')'
      · subst hclose
        exact .inl ⟨[], s, .close⟩
      by_cases hcomment : c = ';'
      · subst hcomment
        exact closedOrInside_comment fun t ht => hlater t ht before
      by_cases hquote : c = '"'
      · subst hquote
        exact closedOrInside_literal hlater
      -- what starts here is a word
      obtain ⟨word, t, hword, hend, rfl⟩ := exists_word s
      have hlater := hlater t (by simp)
      by_cases hcapture : c = '@'
      · subst hcapture
        exact closedOrInside_word hlater rfl hword hend fun h => ⟨_, .capture hword hend h⟩
      · have hstep : (form name before .gap).step c = ([], form name before (.word false [c])) := by
          simp [step, argument, hblank, hclose, hcomment, hcapture, hquote]
        have hc : c ∉ [')', ';', '@', '"'] := by simp [hclose, hcomment, hcapture, hquote]
        exact closedOrInside_word hlater hstep hword hend fun h =>
          ⟨_, .bare (by simpa using hblank) hc hword hend h⟩

/-! ### Texts -/

/-- The machine is in the middle of nothing that needs an end. -/
def isSettled : Mode → Bool
  | between => true
  | opened => true
  | _ => false

theorem finish_of_isSettled {m : Mode} (h : m.isSettled = true) : m.finish = [] := by
  cases m with
  | between => rfl
  | opened => rfl
  | literal _ => cases h
  | comment => cases h
  | heading _ => cases h
  | form _ _ _ => cases h

/-- A parenthesis that starts no form makes no difference. -/
theorem trace_opened {s : List Char} (h : (trimStart s).head? ≠ some '#') :
    (opened.trace s).1 = (between.trace s).1 ∧
    (opened.after s).isSettled = (between.after s).isSettled := by
  induction s with
  | nil => exact ⟨rfl, rfl⟩
  | cons c s ih =>
    by_cases hblank : isWhiteSpace c = true
    · rw [trimStart_cons_of_isWhiteSpace hblank] at h
      rw [after, after, trace_of_step (step_opened_of_isWhiteSpace hblank),
        trace_of_step (step_between_of_isWhiteSpace hblank)]
      exact ih h
    · have hblank : isWhiteSpace c = false := by simpa using hblank
      have hhash : c ≠ '#' := by
        rw [trimStart_cons hblank] at h
        simpa using h
      have hstep : opened.step c = between.step c := by simp [step, hblank, hhash]
      rw [after, after, trace_cons, trace_cons, hstep]
      exact ⟨rfl, rfl⟩

theorem trace_opened_blanks {blank : List Char} (h : blank.all isWhiteSpace = true)
    (s : List Char) : opened.trace (blank ++ s) = opened.trace s := by
  induction blank with
  | nil => rfl
  | cons c blank ih =>
    obtain ⟨hc, hblank⟩ : isWhiteSpace c = true ∧ blank.all isWhiteSpace = true := by simpa using h
    rw [List.cons_append, trace_of_step (step_opened_of_isWhiteSpace hc), ih hblank]

/-- A form up to its arguments. -/
theorem trace_form {blank word s : List Char} (hblank : blank.all isWhiteSpace = true)
    (hword : word.all isWordChar = true) (hend : EndsWord s) (hs : s ≠ []) :
    between.trace ('(' :: (blank ++ '#' :: (word ++ s))) = (form word [] .gap).trace s := by
  rw [trace_of_step (n := opened) rfl, trace_opened_blanks hblank,
    trace_of_step (n := heading []) rfl, readsWord_heading.trace_append hword hend hs,
    List.nil_append]

/-- **The machine on a sequence of items.** -/
theorem trace_items {s : List Char} {ps : List Predicate} (h : Items s ps) :
    (between.trace s).1 = ps ∧ (between.after s).isSettled = true := by
  induction h with
  | nil => exact ⟨rfl, rfl⟩
  | char hc _ ih =>
    rw [after, trace_of_step (step_between hc)]
    exact ih
  | literal hbody _ ih =>
    rw [after, trace_of_step (n := literal false) rfl, readsLiteral_between.trace_body hbody []]
    exact ih
  | comment hbody _ ih =>
    rw [after, trace_of_step (n := comment) rfl, skipsComment_between.trace_body hbody]
    exact ih
  | paren hs _ ih =>
    rw [after, trace_of_step (n := opened) rfl, (trace_opened hs).1, ← after, (trace_opened hs).2]
    exact ih
  | form hblank hword hend hs _ ih =>
    rw [after, trace_form hblank hword hend hs.ne_nil, trace_arguments hs]
    exact ⟨congrArg _ ih.1, ih.2⟩

/-- A form that the text does not end in has all its parts. -/
theorem exists_form {s : List Char} (hhash : (trimStart s).head? = some '#')
    (h : (between.after ('(' :: s)).isSettled = true) :
    ∃ blank word t arguments rest, blank.all isWhiteSpace = true ∧ word.all isWordChar = true ∧
      EndsWord t ∧ Arguments t arguments rest ∧ s = blank ++ '#' :: (word ++ t) := by
  obtain ⟨inner, hinner⟩ : ∃ inner, trimStart s = '#' :: inner := List.head?_eq_some_iff.mp hhash
  obtain ⟨word, t, hword, hend, rfl⟩ := exists_word inner
  have hblank : (s.takeWhile isWhiteSpace).all isWhiteSpace = true := List.all_takeWhile
  have hs : s = s.takeWhile isWhiteSpace ++ '#' :: (word ++ t) := by
    rw [← hinner]
    exact List.takeWhile_append_dropWhile.symm
  by_cases ht : t = []
  · -- the text ends in the name
    have hmode : between.after ('(' :: s) = heading word := by
      rw [hs, ht, after, trace_of_step (n := opened) rfl, trace_opened_blanks hblank,
        trace_of_step (n := heading []) rfl, readsWord_heading.trace_word hword]
      rfl
    rw [hmode] at h
    cases h
  · rcases closedOrInside word [] t with ⟨arguments, rest, harguments⟩ | hinside
    · exact ⟨_, word, t, arguments, rest, hblank, hword, hend, harguments, hs⟩
    · obtain ⟨arguments, part, hmode⟩ := hinside
      rw [after, hs, trace_form hblank hword hend ht, ← after, hmode] at h
      cases h

/-- The text `s` starts with an item and goes on with `t`, which ends in the middle of nothing. -/
structure StartsItem (s t : List Char) : Prop where
  length_lt : t.length < s.length
  isSettled : (between.after t).isSettled = true
  put : ∀ {ps}, Items t ps → ∃ more, Items s more

section

variable {s : List Char}

theorem startsItem_literal (h : (between.after ('"' :: s)).isSettled = true) :
    ∃ t, StartsItem ('"' :: s) t := by
  rw [after_of_step (n := literal false) rfl] at h
  rcases readsLiteral_between.closed_or_inside s with ⟨body, value, t, hbody, rfl⟩ | hinside
  · rw [after, readsLiteral_between.trace_body hbody []] at h
    refine ⟨t, ?_, h, fun hps => ⟨_, .literal hbody hps⟩⟩
    simp only [List.length_cons, List.length_append]
    omega
  · obtain ⟨_, hmode | hmode⟩ := hinside []
    · rw [hmode] at h
      cases h
    · rw [hmode] at h
      cases h

theorem startsItem_comment (h : (between.after (';' :: s)).isSettled = true) :
    ∃ t, StartsItem (';' :: s) t := by
  rw [after_of_step (n := comment) rfl] at h
  rcases skipsComment_between.closed_or_inside s with ⟨body, t, hbody, rfl⟩ | hinside
  · rw [after, skipsComment_between.trace_body hbody] at h
    refine ⟨t, ?_, h, fun hps => ⟨_, .comment hbody hps⟩⟩
    simp only [List.length_cons, List.length_append]
    omega
  · rw [hinside] at h
    cases h

theorem startsItem_parenthesis (h : (between.after ('(' :: s)).isSettled = true) :
    ∃ t, StartsItem ('(' :: s) t := by
  by_cases hhash : (trimStart s).head? = some '#'
  · obtain ⟨blank, word, t, arguments, rest, hblank, hword, hend, harguments, rfl⟩ :=
      exists_form hhash h
    rw [after, trace_form hblank hword hend harguments.ne_nil, trace_arguments harguments] at h
    refine ⟨rest, ?_, h, fun hps => ⟨_, .form hblank hword hend harguments hps⟩⟩
    have hlt := harguments.length_lt
    simp only [List.length_cons, List.length_append]
    omega
  · rw [after_of_step (n := opened) rfl, (trace_opened hhash).2] at h
    exact ⟨s, Nat.lt_succ_self _, h, fun hps => ⟨_, .paren hhash hps⟩⟩

theorem exists_startsItem {c : Char} (h : (between.after (c :: s)).isSettled = true) :
    ∃ t, StartsItem (c :: s) t := by
  by_cases hquote : c = '"'
  · subst hquote
    exact startsItem_literal h
  by_cases hcomment : c = ';'
  · subst hcomment
    exact startsItem_comment h
  by_cases hopen : c = '('
  · subst hopen
    exact startsItem_parenthesis h
  · have hc : c ∉ ['"', ';', '('] := by simp [hquote, hcomment, hopen]
    rw [after_of_step (step_between hc)] at h
    exact ⟨s, Nat.lt_succ_self _, h, fun hps => ⟨_, .char hc hps⟩⟩

end

/-- **A text that ends in the middle of nothing** is a sequence of items. -/
theorem exists_items {s : List Char} (h : (between.after s).isSettled = true) :
    ∃ ps, Items s ps := by
  induction hlen : s.length using Nat.strongRecOn generalizing s with
  | ind n ih =>
    subst hlen
    cases s with
    | nil => exact ⟨[], .nil⟩
    | cons c s =>
      -- one item is taken off, and what is left is shorter
      obtain ⟨t, ht⟩ := exists_startsItem h
      obtain ⟨ps, hps⟩ := ih t.length ht.length_lt ht.isSettled rfl
      exact ht.put hps

end Mode

/-- **The texts that are read, and what is read from them.**  A text is a sequence of items with the
predicates `ps` among them if and only if `ps` is what is found in it and it does not end in the
middle of a literal, a comment or a form.  So a sequence of items is read as its forms, in order,
each with its name and with its arguments decoded, whatever stands in the literals and comments
around them; and it can be put together from items in no other way that has other predicates. -/
theorem Grammar.items_iff (text : String) (ps : List Predicate) :
    Items text.toList ps ↔
      Predicate.allIn text = ps ∧ (Mode.between.after text.toList).isSettled = true := by
  have hfound : ∀ {ps}, Items text.toList ps → Predicate.allIn text = ps := by
    intro ps h
    obtain ⟨htrace, hsettled⟩ := Mode.trace_items h
    rw [Predicate.allIn, Mode.scan_eq_run, Mode.run, Mode.finish_of_isSettled hsettled,
      List.append_nil, htrace]
  constructor
  · intro h
    exact ⟨hfound h, (Mode.trace_items h).2⟩
  · rintro ⟨hps, hsettled⟩
    obtain ⟨qs, hqs⟩ := Mode.exists_items hsettled
    obtain rfl : qs = ps := (hfound hqs).symm.trans hps
    exact hqs

/-- A quote after a backslash, a semicolon in a word, a word that starts with a parenthesis, a
comment among the arguments, and forms that are none since they stand in a literal and a comment. -/
theorem Grammar.items_iff_mixed :
    Items "\"(#no)\" ; (#no)\n( #eq? @a;b \"x\\\"(#\\n\" ;c)\n (w) ((x".toList
      [⟨"eq?", [.capture "a;b", .text "x\"(#\n", .text "(w"]⟩] := by
  refine (items_iff _ _).mpr ⟨?_, by decide +kernel⟩
  rw [Predicate.allIn, Mode.scan_eq_run]
  decide +kernel

end SyntaxView.PredicateText
