import SyntaxView.Proofs.PatternPredicates
import SyntaxView.Proofs.PredicateGrammar

/-!
# Comments in the gaps of a text

A comment may be put between any two tokens of a text without a change to the predicates that are
read from it, with one exception: between an opening parenthesis and the `#` that makes a form of
it only white space is passed over, and a comment there hides the form.

`Lexeme` says what the tokens are, and with them white space and comments, by rules that put a text
together; `Lexemes` goes from one to the next.  What is a token depends on where it stands: in a
form a word goes up to white space or a parenthesis, so a quote or a semicolon in it is a part of
it, while outside of forms every character but quotes, semicolons and opening parentheses may stand
for itself.  The places that `Lexemes` comes to are the gaps of the text.

* `Lexeme.reads` is the step: at each gap the machine of `PredicateMachine` is in a mode that is
  known from the context alone, and what comes next is read from there.  `Lexemes.reads` is the run.
  Both hold for whatever else is put after the gap, as long as it does not make a word longer, and
  so for the same text with a comment in the gap.
* `exists_lexemes`: a text in which all literals are closed consists of lexemes, up to its end or to
  a last comment that is not closed.
* `Predicate.allIn_insert_comment` puts both together.
-/

namespace SyntaxView

open Text

namespace PredicateText

open Grammar

/-! ### Lexemes and gaps -/

/-- Where a gap lies. -/
inductive Context where
  /-- Outside of forms. -/
  | outside
  /-- Outside of forms, after an opening parenthesis and white space. -/
  | opened
  /-- In a form, after its name. -/
  | form
  deriving Repr, DecidableEq

/-- The context after something that is neither white space nor the name of a form. -/
def Context.settled : Context → Context
  | form => form
  | _ => outside

theorem Context.settled_of_ne_form {σ : Context} (h : σ ≠ .form) : σ.settled = .outside := by
  cases σ with
  | outside => rfl
  | opened => rfl
  | form => exact absurd rfl h

/-- `Lexeme σ s τ t`: in the context `σ` the text `s` starts with a token, a comment or white space,
and goes on with `t` in the context `τ`. -/
inductive Lexeme : Context → List Char → Context → List Char → Prop where
  | blank {σ : Context} {c : Char} {t : List Char} (hc : isWhiteSpace c = true) :
      Lexeme σ (c :: t) σ t
  | comment {σ : Context} {body t : List Char} (hbody : '\n' ∉ body) :
      Lexeme σ (';' :: (body ++ '\n' :: t)) σ.settled t
  | literal {σ : Context} {body value t : List Char} (hbody : Body body value) :
      Lexeme σ ('"' :: (body ++ '"' :: t)) σ.settled t
  | parenthesis {σ : Context} {t : List Char} (hout : σ ≠ .form) : Lexeme σ ('(' :: t) .opened t
  | char {σ : Context} {c : Char} {t : List Char} (hout : σ ≠ .form)
      (hblank : isWhiteSpace c = false) (hc : c ∉ ['"', ';', '('])
      (hhash : σ = .opened → c ≠ '#') : Lexeme σ (c :: t) .outside t
  | operator {word t : List Char} (hword : word.all isWordChar = true) (hend : EndsWord t) :
      Lexeme .opened ('#' :: (word ++ t)) .form t
  | capture {word t : List Char} (hword : word.all isWordChar = true) (hend : EndsWord t) :
      Lexeme .form ('@' :: (word ++ t)) .form t
  | bare {c : Char} {word t : List Char} (hblank : isWhiteSpace c = false)
      (hc : c ∉ [')', ';', '@', '"']) (hword : word.all isWordChar = true) (hend : EndsWord t) :
      Lexeme .form (c :: (word ++ t)) .form t
  | close {t : List Char} : Lexeme .form (')' :: t) .outside t

/-- `Lexemes σ s τ t`: from the context `σ` on the text `s` consists of lexemes up to a gap before
`t`, in the context `τ`. -/
inductive Lexemes : Context → List Char → Context → List Char → Prop where
  | refl {σ : Context} {s : List Char} : Lexemes σ s σ s
  | step {σ τ υ : Context} {s t u : List Char} (h : Lexeme σ s τ t) (hlater : Lexemes τ t υ u) :
      Lexemes σ s υ u

theorem Lexeme.length_lt {σ τ : Context} {s t : List Char} (h : Lexeme σ s τ t) :
    t.length < s.length := by
  cases h with
  | blank | parenthesis | char | close => exact Nat.lt_succ_self _
  | comment | literal | operator | capture | bare =>
    simp only [List.length_cons, List.length_append]
    omega

/-- Outside of forms text in which no literal, comment or form can start consists of lexemes. -/
theorem Lexemes.plain {plain t u : List Char} {τ : Context}
    (h : plain.all (fun c => c ∉ ['"', ';', '(']) = true) (hlater : Lexemes .outside t τ u) :
    Lexemes .outside (plain ++ t) τ u := by
  induction plain with
  | nil => exact hlater
  | cons c plain ih =>
    rw [List.all_cons, Bool.and_eq_true, decide_eq_true_eq] at h
    obtain ⟨hc, hplain⟩ := h
    by_cases hblank : isWhiteSpace c = true
    · exact .step (.blank hblank) (ih hplain)
    · have hblank : isWhiteSpace c = false := by simpa using hblank
      exact .step (.char (by decide) hblank hc nofun) (ih hplain)

/-! ### The machine in the gaps -/

namespace Mode

/-- The modes that the machine can be in at a gap, just after it has read a lexeme to its end. -/
def Fits : Context → Mode → Prop
  | .outside, m => m = between
  | .opened, m => m = opened
  | .form, m => ∃ name arguments, m = form name arguments .gap

/-- Reading `s` from the mode `m` on comes to reading `t` from the mode `n` on, after the predicates
`out`; at the end the machine is inside a literal either way or neither way. -/
structure Reads (m : Mode) (s : List Char) (out : List Predicate) (n : Mode) (t : List Char) :
    Prop where
  run_eq : m.run s = out ++ n.run t
  isInLiteral_eq : (m.after s).isInLiteral = (n.after t).isInLiteral

section

variable {m n : Mode} {s t : List Char}

theorem Reads.of_trace {out : List Predicate}
    (h : m.trace s = (out ++ (n.trace t).1, (n.trace t).2)) : Reads m s out n t := by
  constructor
  · rw [run, after, h, List.append_assoc]
    rfl
  · rw [after, h]
    rfl

/-- Characters that settle nothing lead from one mode to another. -/
theorem Reads.of_trace_eq (h : m.trace s = n.trace t) : Reads m s [] n t := .of_trace h

theorem Reads.trans {k : Mode} {u : List Char} {out out' : List Predicate} (h : Reads m s out n t)
    (h' : Reads n t out' k u) : Reads m s (out ++ out') k u :=
  ⟨by rw [h.run_eq, h'.run_eq, List.append_assoc], h.isInLiteral_eq.trans h'.isInLiteral_eq⟩

end

/-- A word is read up to its end, be there anything after it or not. -/
theorem ReadsWord.reads {reading next : List Char → Mode} (h : ReadsWord reading next)
    (hout : ∀ read, (reading read).isInLiteral = (next read).isInLiteral) {word u : List Char}
    (hword : word.all isWordChar = true) (hend : EndsWord u) (read : List Char) :
    Reads (reading read) (word ++ u) [] (next (read ++ word)) u := by
  by_cases hu : u = []
  · subst hu
    have htrace := h.trace_word hword read []
    constructor
    · rw [run, after, htrace]
      exact h.finish_reading (read ++ word)
    · rw [after, htrace]
      exact hout (read ++ word)
  · exact .of_trace_eq (h.trace_append hword hend hu read)

/-- Outside of forms the modes differ only in what they make of white space and of `#`. -/
theorem Fits.step_eq {σ : Context} {m : Mode} (hm : Fits σ m) (hout : σ ≠ .form) {c : Char}
    (hblank : isWhiteSpace c = false) (hhash : σ = .opened → c ≠ '#') :
    m.step c = between.step c := by
  cases σ with
  | outside => rw [show m = between from hm]
  | opened =>
    rw [show m = opened from hm]
    simp [step, hblank, hhash rfl]
  | form => exact absurd rfl hout

theorem Fits.step_of_isWhiteSpace {σ : Context} {m : Mode} (hm : Fits σ m) {c : Char}
    (hc : isWhiteSpace c = true) : m.step c = ([], m) := by
  cases σ with
  | outside =>
    obtain rfl := hm
    exact step_between_of_isWhiteSpace hc
  | opened =>
    obtain rfl := hm
    exact step_opened_of_isWhiteSpace hc
  | form =>
    obtain ⟨name, arguments, rfl⟩ := hm
    exact step_gap_of_isWhiteSpace name arguments hc

/-- From the mode `m` on the machine reads `s` up to a gap before `t`, in the context `τ`.  What it
has read by then does not depend on `t`, which may be replaced by any other text that ends a word if
`t` does. -/
def ReadsTo (m : Mode) (s : List Char) (τ : Context) (t : List Char) : Prop :=
  ∃ front out n, s = front ++ t ∧ Fits τ n ∧
    ∀ u, (EndsWord t → EndsWord u) → Reads m (front ++ u) out n u

section

variable {m n : Mode} {τ υ : Context} {s t u : List Char}

/-- A lexeme of one character that settles nothing. -/
theorem readsTo_of_step {c : Char} (hstep : m.step c = ([], n)) (hn : Fits τ n) :
    ReadsTo m (c :: t) τ t :=
  ⟨[c], [], n, rfl, hn, fun _ _ => .of_trace_eq (trace_of_step hstep _)⟩

/-- A literal after its opening quote. -/
theorem readsTo_literal {reading escaped next : List Char → Mode}
    (h : ReadsLiteral reading escaped next) (hstep : m.step '"' = ([], reading []))
    {body value : List Char} (hbody : Body body value) (hn : Fits τ (next value)) :
    ReadsTo m ('"' :: (body ++ '"' :: t)) τ t := by
  refine ⟨'"' :: (body ++ ['"']), [], next value, by simp, hn, fun u _ => ?_⟩
  apply Reads.of_trace_eq
  rw [List.cons_append, List.append_assoc, List.singleton_append, trace_of_step hstep,
    h.trace_body hbody [], List.nil_append]

/-- A comment after its semicolon. -/
theorem readsTo_comment {inside : Mode} (h : SkipsComment inside n)
    (hstep : m.step ';' = ([], inside)) {body : List Char} (hbody : '\n' ∉ body) (hn : Fits τ n) :
    ReadsTo m (';' :: (body ++ '\n' :: t)) τ t := by
  refine ⟨';' :: (body ++ ['\n']), [], n, by simp, hn, fun u _ => ?_⟩
  apply Reads.of_trace_eq
  rw [List.cons_append, List.append_assoc, List.singleton_append, trace_of_step hstep,
    h.trace_body hbody]

/-- A word after its first character.  This is the one lexeme whose end is found by what comes
after it. -/
theorem readsTo_word {reading next : List Char → Mode} (h : ReadsWord reading next)
    (hout : ∀ read, (reading read).isInLiteral = (next read).isInLiteral) {c : Char}
    {read word : List Char} (hstep : m.step c = ([], reading read))
    (hword : word.all isWordChar = true) (hend : EndsWord t) (hn : Fits τ (next (read ++ word))) :
    ReadsTo m (c :: (word ++ t)) τ t := by
  refine ⟨c :: word, [], next (read ++ word), rfl, hn, fun u hu => ?_⟩
  have hfirst : Reads m (c :: (word ++ u)) [] (reading read) (word ++ u) :=
    .of_trace_eq (trace_of_step hstep _)
  exact hfirst.trans (h.reads hout hword (hu hend) read)

/-- A text that ends a word if another one does still does so after the same characters. -/
theorem endsWord_append (h : EndsWord t → EndsWord u) (front : List Char)
    (hfront : EndsWord (front ++ t)) : EndsWord (front ++ u) := by
  cases front with
  | nil => exact h hfront
  | cons c front => exact hfront

theorem ReadsTo.trans (h : ReadsTo m s τ t) (hlater : ∀ n, Fits τ n → ReadsTo n t υ u) :
    ReadsTo m s υ u := by
  obtain ⟨front, out, n, hs, hn, hreads⟩ := h
  obtain ⟨front', out', k, rfl, hk, hreads'⟩ := hlater n hn
  refine ⟨front ++ front', out ++ out', k, by rw [hs, List.append_assoc], hk, fun v hv => ?_⟩
  rw [List.append_assoc]
  exact (hreads (front' ++ v) (endsWord_append hv front')).trans (hreads' v hv)

end

end Mode

open Mode

/-- **The step**: one lexeme takes the machine from gap to gap. -/
theorem Lexeme.reads {σ τ : Context} {s t : List Char} (h : Lexeme σ s τ t) {m : Mode}
    (hm : Fits σ m) : ReadsTo m s τ t := by
  cases h with
  | blank hc => exact readsTo_of_step (hm.step_of_isWhiteSpace hc) hm
  | comment hbody =>
    by_cases hout : σ = .form
    · subst hout
      obtain ⟨name, arguments, rfl⟩ := hm
      exact readsTo_comment (skipsComment_form name arguments) rfl hbody ⟨name, arguments, rfl⟩
    · have hstep : m.step ';' = ([], Mode.comment) :=
        hm.step_eq hout (by decide) fun _ => by decide
      rw [Context.settled_of_ne_form hout]
      exact readsTo_comment skipsComment_between hstep hbody rfl
  | literal hbody =>
    by_cases hout : σ = .form
    · subst hout
      obtain ⟨name, arguments, rfl⟩ := hm
      exact readsTo_literal (readsLiteral_form name arguments) rfl hbody ⟨name, _, rfl⟩
    · have hstep : m.step '"' = ([], Mode.literal false) :=
        hm.step_eq hout (by decide) fun _ => by decide
      rw [Context.settled_of_ne_form hout]
      exact readsTo_literal readsLiteral_between hstep hbody rfl
  | parenthesis hout =>
    have hstep : m.step '(' = ([], opened) := hm.step_eq hout (by decide) fun _ => by decide
    exact readsTo_of_step hstep rfl
  | char hout hblank hc hhash =>
    have hstep := (hm.step_eq hout hblank hhash).trans (step_between hc)
    exact readsTo_of_step hstep rfl
  | operator hword hend =>
    obtain rfl := hm
    exact readsTo_word readsWord_heading (fun _ => rfl) rfl hword hend ⟨_, _, rfl⟩
  | capture hword hend =>
    obtain ⟨name, arguments, rfl⟩ := hm
    exact readsTo_word (readsWord_form name arguments true) (fun _ => rfl) rfl hword hend
      ⟨name, _, rfl⟩
  | @bare c _ _ hblank hc hword hend =>
    obtain ⟨name, arguments, rfl⟩ := hm
    have hstep : (form name arguments .gap).step c
        = ([], form name arguments (.word false [c])) := by
      simp only [List.mem_cons, List.not_mem_nil, or_false, not_or] at hc
      simp [step, argument, hblank, hc]
    exact readsTo_word (readsWord_form name arguments false) (fun _ => rfl) hstep hword hend
      ⟨name, _, rfl⟩
  | close =>
    -- the closing parenthesis settles the predicate
    obtain ⟨name, arguments, rfl⟩ := hm
    exact ⟨[')'], [⟨.ofList name, arguments⟩], between, rfl, rfl, fun _ _ => .of_trace rfl⟩

/-- **The run**: any number of lexemes. -/
theorem Lexemes.reads {σ τ : Context} {s t : List Char} (h : Lexemes σ s τ t) {m : Mode}
    (hm : Fits σ m) : ReadsTo m s τ t := by
  induction h generalizing m with
  | refl => exact ⟨[], [], m, rfl, hm, fun _ _ => .of_trace_eq rfl⟩
  | step h _ ih => exact (h.reads hm).trans fun n hn => ih hn

/-! ### Texts of lexemes -/

/-- A literal that the text does not end in has its closing quote. -/
theorem exists_closing_quote {reading escaped next : List Char → Mode}
    (h : ReadsLiteral reading escaped next)
    (hinside : ∀ read, (reading read).isInLiteral = true ∧ (escaped read).isInLiteral = true)
    {m : Mode} (hstep : m.step '"' = ([], reading [])) {s : List Char}
    (hclosed : (m.after ('"' :: s)).isInLiteral = false) :
    ∃ body value t, Body body value ∧ s = body ++ '"' :: t := by
  rw [after_of_step hstep] at hclosed
  rcases h.closed_or_inside s with hfound | hmode
  · exact hfound
  · obtain ⟨read, hread | hread⟩ := hmode []
    · rw [hread, (hinside read).1] at hclosed
      cases hclosed
    · rw [hread, (hinside read).2] at hclosed
      cases hclosed

/-- A text that starts in a gap starts with a lexeme, unless it is the rest of an unclosed comment
or ends inside a literal. -/
theorem exists_lexeme {σ : Context} {m : Mode} (hm : Fits σ m) {c : Char} {s : List Char}
    (hclosed : (m.after (c :: s)).isInLiteral = false) :
    (∃ τ t, Lexeme σ (c :: s) τ t) ∨ c = ';' ∧ '\n' ∉ s := by
  by_cases hblank : isWhiteSpace c = true
  · exact .inl ⟨σ, s, .blank hblank⟩
  have hblank : isWhiteSpace c = false := by simpa using hblank
  by_cases hcomment : c = ';'
  · subst hcomment
    by_cases hline : '\n' ∈ s
    · obtain ⟨body, t, rfl, hbody⟩ := List.eq_append_cons_of_mem hline
      exact .inl ⟨σ.settled, t, .comment hbody⟩
    · exact .inr ⟨rfl, hline⟩
  left
  by_cases hquote : c = '"'
  · subst hquote
    obtain ⟨body, value, t, hbody, rfl⟩ :
        ∃ body value t, Body body value ∧ s = body ++ '"' :: t := by
      by_cases hform : σ = .form
      · subst hform
        obtain ⟨name, arguments, rfl⟩ := hm
        have hliteral := readsLiteral_form name arguments
        exact exists_closing_quote hliteral (fun _ => ⟨rfl, rfl⟩) rfl hclosed
      · have hstep : m.step '"' = ([], literal false) :=
          hm.step_eq hform (by decide) fun _ => by decide
        exact exists_closing_quote readsLiteral_between (fun _ => ⟨rfl, rfl⟩) hstep hclosed
    exact ⟨σ.settled, t, .literal hbody⟩
  obtain ⟨word, t, hword, hend, hs⟩ := exists_word s
  by_cases hform : σ = .form
  · subst hform
    by_cases hclose : c = ')'
    · subst hclose
      exact ⟨.outside, s, .close⟩
    by_cases hcapture : c = '@'
    · subst hcapture hs
      exact ⟨.form, t, .capture hword hend⟩
    · subst hs
      have hc : c ∉ [')', ';', '@', '"'] := by simp [hclose, hcomment, hcapture, hquote]
      exact ⟨.form, t, .bare hblank hc hword hend⟩
  · by_cases hopen : c = '('
    · subst hopen
      exact ⟨.opened, s, .parenthesis hform⟩
    by_cases hhash : σ = .opened ∧ c = '#'
    · obtain ⟨rfl, rfl⟩ := hhash
      subst hs
      exact ⟨.form, t, .operator hword hend⟩
    · have hc : c ∉ ['"', ';', '('] := by simp [hquote, hcomment, hopen]
      exact ⟨.outside, s, .char hform hblank hc fun hσ hc => hhash ⟨hσ, hc⟩⟩

/-- **A text with closed literals consists of lexemes**, up to its end or to a last comment. -/
theorem exists_lexemes {σ : Context} {m : Mode} (hm : Fits σ m) {s : List Char}
    (hclosed : (m.after s).isInLiteral = false) :
    ∃ τ t, Lexemes σ s τ t ∧ (t = [] ∨ ∃ body, '\n' ∉ body ∧ t = ';' :: body) := by
  induction hlen : s.length using Nat.strongRecOn generalizing σ m s with
  | ind k ih =>
    subst hlen
    cases s with
    | nil => exact ⟨σ, [], .refl, .inl rfl⟩
    | cons c s =>
      rcases exists_lexeme hm hclosed with ⟨τ, t, hlexeme⟩ | ⟨rfl, hline⟩
      · -- one lexeme is taken off, and the machine goes on in the gap after it
        obtain ⟨front, out, n, hs, hn, hreads⟩ := hlexeme.reads hm
        have hlater : (n.after t).isInLiteral = false := by
          rw [← (hreads t id).isInLiteral_eq, ← hs]
          exact hclosed
        obtain ⟨υ, u, hlexemes, hu⟩ := ih t.length hlexeme.length_lt hn hlater rfl
        exact ⟨υ, u, .step hlexeme hlexemes, hu⟩
      · exact ⟨σ, ';' :: s, .refl, .inr ⟨s, hline, rfl⟩⟩

/-! ### A comment in a gap -/

/-- What is put into a gap: a space, a comment and the end of its line. -/
def commentLine (body : List Char) : List Char := ' ' :: ';' :: (body ++ ['\n'])

theorem endsWord_commentLine (body t : List Char) : EndsWord (commentLine body ++ t) :=
  endsWord_cons (by decide) _

namespace Mode

/-- After a comment the machine is where it was, except that it no longer waits for a `#`. -/
theorem run_commentLine {body : List Char} (hbody : '\n' ∉ body) (t : List Char) :
    between.run (commentLine body ++ t) = between.run t ∧
    opened.run (commentLine body ++ t) = between.run t ∧
    ∀ name arguments, (form name arguments .gap).run (commentLine body ++ t)
      = (form name arguments .gap).run t := by
  have hline : commentLine body ++ t = ' ' :: ';' :: (body ++ '\n' :: t) := by
    simp [commentLine]
  have hrun : ∀ {m n inside : Mode}, m.step ' ' = ([], m) → m.step ';' = ([], inside) →
      SkipsComment inside n → m.run (commentLine body ++ t) = n.run t := by
    intro m n inside hblank hsemicolon hskips
    rw [hline, run_of_step hblank, run_of_step hsemicolon, run, after, hskips.trace_body hbody]
    rfl
  exact ⟨hrun rfl rfl skipsComment_between, hrun rfl rfl skipsComment_between,
    fun name arguments => hrun rfl rfl (skipsComment_form name arguments)⟩

/-- A parenthesis that is followed by no `#` starts nothing. -/
theorem run_opened {t : List Char} (h : (trimStart t).head? ≠ some '#') :
    opened.run t = between.run t := by
  rw [← run_trimStart (fun _ => step_opened_of_isWhiteSpace) t,
    ← run_trimStart (fun _ => step_between_of_isWhiteSpace) t]
  cases htrim : trimStart t with
  | nil => rfl
  | cons c rest =>
    have hblank : isWhiteSpace c = false := isWhiteSpace_of_trimStart_eq_cons htrim
    have hhash : c ≠ '#' := by
      rw [htrim] at h
      simpa using h
    have hstep : opened.step c = between.step c := by simp [step, hblank, hhash]
    rw [run_cons, run_cons, hstep]

end Mode

/-- The gap between an opening parenthesis and the `#` of a form. -/
def BeforeOperator (σ : Context) (t : List Char) : Prop :=
  σ = .opened ∧ (trimStart t).head? = some '#'

instance (σ : Context) (t : List Char) : Decidable (BeforeOperator σ t) :=
  inferInstanceAs (Decidable (_ ∧ _))

/-- **A comment in a gap.**  It is passed over, or it hides a form. -/
theorem scan_commentLine {s t body : List Char} {σ : Context}
    (hgap : Lexemes .outside (s ++ t) σ t) (hbody : '\n' ∉ body) :
    (¬ BeforeOperator σ t → scan (s ++ (commentLine body ++ t)) = scan (s ++ t)) ∧
    (BeforeOperator σ t → scan (s ++ (commentLine body ++ t)) = scan s ++ scan t ∧
      scan (s ++ t) = scan s ++ scan ('(' :: t)) := by
  obtain ⟨front, out, n, hs, hn, hreads⟩ := hgap.reads rfl
  obtain rfl : s = front := List.append_cancel_right hs
  have hrun : ∀ u, (EndsWord t → EndsWord u) → scan (s ++ u) = out ++ n.run u := by
    intro u hu
    rw [scan_eq_run]
    exact (hreads u hu).run_eq
  have hplain := hrun t id
  have hcommented := hrun _ fun _ => endsWord_commentLine body t
  obtain ⟨hbetween, hopened, hform⟩ := run_commentLine hbody t
  constructor
  · intro hnot
    rw [hplain, hcommented]
    cases σ with
    | outside =>
      obtain rfl := hn
      rw [hbetween]
    | opened =>
      obtain rfl := hn
      rw [hopened, run_opened fun hhash => hnot ⟨rfl, hhash⟩]
    | form =>
      obtain ⟨name, arguments, rfl⟩ := hn
      rw [hform]
  · rintro ⟨rfl, -⟩
    obtain rfl := hn
    -- what is read before the gap, which is all if the text ends there
    have hbefore : scan s = out := by
      have hend := hrun [] fun _ c hc => by cases hc
      rw [List.append_nil] at hend
      exact hend.trans (List.append_nil out)
    have hparenthesis : scan ('(' :: t) = opened.run t := by
      rw [scan_eq_run]
      exact run_of_step rfl t
    rw [hplain, hcommented, hopened, hbefore, hparenthesis, scan_eq_run]
    exact ⟨rfl, rfl⟩

end PredicateText

open PredicateText PredicateText.Mode

/-- **Comments between tokens make no difference**, with one exception.  A text in which all
literals are closed consists of tokens, white space and comments, but for a last comment that may
have no end.  Into any gap of it, be it in a form or outside of forms, a space, a comment with
whatever contents and the end of a line may be put, and the same predicates are found.

The exception is a gap between an opening parenthesis and the `#` of a form.  A comment there hides
the form: what follows the gap is read as if the parenthesis were not there. -/
theorem Predicate.allIn_insert_comment {text : String}
    (hclosed : (Mode.between.after text.toList).isInLiteral = false) :
    (∃ σ t, Lexemes .outside text.toList σ t ∧
      (t = [] ∨ ∃ body, '\n' ∉ body ∧ t = ';' :: body)) ∧
    ∀ (s t body : String) (σ : Context), text = s ++ t →
      Lexemes .outside text.toList σ t.toList → '\n' ∉ body.toList →
      (¬ BeforeOperator σ t.toList →
        allIn (s ++ " ;" ++ body ++ "\n" ++ t) = allIn text) ∧
      (BeforeOperator σ t.toList →
        allIn (s ++ " ;" ++ body ++ "\n" ++ t) = allIn s ++ allIn t ∧
        allIn text = allIn s ++ allIn ("(" ++ t)) := by
  have hbetween : Fits .outside .between := rfl
  refine ⟨exists_lexemes hbetween hclosed, ?_⟩
  rintro s t body σ rfl hgap hbody
  have hinserted : (s ++ " ;" ++ body ++ "\n" ++ t).toList
      = s.toList ++ (commentLine body.toList ++ t.toList) := by
    simp [commentLine]
  rw [String.toList_append] at hgap
  have hscan := scan_commentLine hgap hbody
  rw [← hinserted, ← String.toList_append] at hscan
  have hparenthesis : ("(" ++ t).toList = '(' :: t.toList := by simp
  unfold allIn
  rw [hparenthesis]
  exact hscan

/-- A comment between a literal and the bare word that follows it at once, with what looks like the
end of the form and the start of another one in it. -/
theorem Predicate.allIn_insert_comment_word :
    let s := "(#any-of? @x \"b\""
    let t := "c \"d;\")"
    (Mode.between.after (s ++ t).toList).isInLiteral = false ∧
    Lexemes .outside (s ++ t).toList .form t.toList ∧
    allIn (s ++ " ;" ++ "\") (#no" ++ "\n" ++ t)
      = [⟨"any-of?", [.capture "x", .text "b", .text "c", .text "d;"]⟩] := by
  intro s t
  have hclosed : (Mode.between.after (s ++ t).toList).isInLiteral = false := by decide +kernel
  have hgap : Lexemes .outside (s ++ t).toList .form t.toList := by
    have hout : Context.outside ≠ .form := by decide
    have hbody : Grammar.Body ['b'] ['b'] := .plain (by decide) (by decide) .nil
    have htext : (s ++ t).toList = '(' :: '#' :: ("any-of?".toList ++ ' ' :: '@' :: (['x'] ++
        ' ' :: '"' :: (['b'] ++ '"' :: t.toList))) := by decide
    rw [htext]
    refine .step (.parenthesis hout) (.step (.operator (by decide) ?_) ?_)
    · exact endsWord_cons (by decide) _
    refine .step (.blank (by decide)) (.step (.capture (by decide) ?_) ?_)
    · exact endsWord_cons (by decide) _
    exact .step (.blank (by decide)) (.step (.literal hbody) .refl)
  refine ⟨hclosed, hgap, ?_⟩
  obtain ⟨-, hinsert⟩ := Predicate.allIn_insert_comment hclosed
  rw [(hinsert s t "\") (#no" .form rfl hgap (by decide)).1 (by decide), allIn, scan_eq_run]
  decide +kernel

/-- The exception: with a comment between the parenthesis and the `#` the form is not found. -/
theorem Predicate.allIn_comment_before_operator :
    let s := "((identifier) @a ("
    let t := "#eq? @a \"b\"))"
    (Mode.between.after (s ++ t).toList).isInLiteral = false ∧
    Lexemes .outside (s ++ t).toList .opened t.toList ∧
    allIn (s ++ t) = [⟨"eq?", [.capture "a", .text "b"]⟩] ∧
    allIn (s ++ " ;" ++ "c" ++ "\n" ++ t) = [] := by
  intro s t
  have hout : Context.outside ≠ .form := by decide
  have hopened : Context.opened ≠ .form := by decide
  have hform : Lexemes .outside ('(' :: t.toList) .opened t.toList :=
    .step (.parenthesis hout) .refl
  have hpattern : Lexemes .outside ("dentifier) @a ".toList ++ '(' :: t.toList) .opened t.toList :=
    .plain (by decide) hform
  refine ⟨by decide +kernel, ?_, ?_, ?_⟩
  · have htext : (s ++ t).toList
        = '(' :: '(' :: 'i' :: ("dentifier) @a ".toList ++ '(' :: t.toList) := by decide
    rw [htext]
    refine .step (.parenthesis hout) (.step (.parenthesis hopened) ?_)
    exact .step (.char hopened (by decide) (by decide) (by decide)) hpattern
  · rw [allIn, scan_eq_run]
    decide +kernel
  · rw [allIn, scan_eq_run]
    decide +kernel

end SyntaxView
