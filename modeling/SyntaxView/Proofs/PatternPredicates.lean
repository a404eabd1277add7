import SyntaxView.Proofs.ByteCuts
import SyntaxView.Proofs.PredicateMachine
import SyntaxView.Query.Basic

/-!
# The predicates of a query are those of its patterns

A query is cut into patterns at the offsets that the engine gives, the white space at the end of
each pattern is dropped, and the predicates of each pattern are read from what is left.  If the
reader is in the middle of nothing at each cut, no predicate is lost and none is made up: the
predicates of the patterns, one pattern after the other, are those of the text from the first cut on
(`Query.predicates_patterns`).

* `scan_append`: the texts before and after such a cut are read independently of each other.
* `scan_trimEnd`: dropping white space at the end of a text changes nothing, unless the text ends
  inside a literal.  White space leaves the machine inside a literal if it was there before, and
  outside of literals it may end a word or a comment, but what the end of the text settles is the
  same (`step_of_isWhiteSpace`).
-/

namespace SyntaxView

open Text

namespace PredicateText

/-! ### White space at the end -/

namespace Mode

/-- The machine is inside a literal, in a form or outside of forms. -/
def isInLiteral : Mode → Bool
  | literal _ => true
  | form _ _ (.literal _ _) => true
  | _ => false

theorem isInLiteral_step {m : Mode} {c : Char} (hc : isWhiteSpace c = true)
    (h : m.isInLiteral = true) : (m.step c).2.isInLiteral = true := by
  have hquote : c ≠ '"' := by
    rintro rfl
    exact absurd hc (by decide)
  match m, h with
  | literal true, _ => rfl
  | literal false, _ => simp [step, hquote, isInLiteral]
  | form _ _ (.literal true _), _ => rfl
  | form _ _ (.literal false _), _ =>
    by_cases hback : c = '\\'
    · simp [step, hback, isInLiteral]
    · simp [step, hquote, hback, isInLiteral]

/-- Outside of literals white space settles nothing, and nothing that the end of the text settles
depends on it. -/
theorem step_of_isWhiteSpace {m : Mode} {c : Char} (hc : isWhiteSpace c = true)
    (h : m.isInLiteral = false) :
    (m.step c).1 = [] ∧ (m.step c).2.finish = m.finish ∧ (m.step c).2.isInLiteral = false := by
  have hword : isWordChar c = false := by simp [isWordChar, hc]
  match m, h with
  | between, _ =>
    rw [step_between_of_isWhiteSpace hc]
    exact ⟨rfl, rfl, rfl⟩
  | comment, _ => by_cases hline : c = '\n' <;> simp [step, hline, finish, isInLiteral]
  | opened, _ =>
    rw [step_opened_of_isWhiteSpace hc]
    exact ⟨rfl, rfl, rfl⟩
  | heading read, _ => simp [step, hword, argument, hc, finish, Part.arguments, isInLiteral]
  | form name arguments .gap, _ =>
    rw [step_gap_of_isWhiteSpace name arguments hc]
    exact ⟨rfl, rfl, rfl⟩
  | form name arguments .comment, _ =>
    by_cases hline : c = '\n' <;> simp [step, hline, finish, Part.arguments, isInLiteral]
  | form name arguments (.word capture read), _ =>
    simp [step, hword, argument, hc, finish, Part.arguments, isInLiteral]

theorem isInLiteral_after {m : Mode} {blank : List Char} (hblank : blank.all isWhiteSpace = true)
    (h : m.isInLiteral = true) : (m.after blank).isInLiteral = true := by
  induction blank generalizing m with
  | nil => exact h
  | cons c blank ih =>
    obtain ⟨hc, hblank⟩ : isWhiteSpace c = true ∧ blank.all isWhiteSpace = true := by
      simpa using hblank
    exact ih hblank (isInLiteral_step hc h)

theorem run_blanks {m : Mode} {blank : List Char} (hblank : blank.all isWhiteSpace = true)
    (h : m.isInLiteral = false) : m.run blank = m.finish := by
  induction blank generalizing m with
  | nil => rfl
  | cons c blank ih =>
    obtain ⟨hc, hblank⟩ : isWhiteSpace c = true ∧ blank.all isWhiteSpace = true := by
      simpa using hblank
    obtain ⟨hnone, hfinish, hout⟩ := step_of_isWhiteSpace hc h
    rw [run_cons, ih hblank hout, hnone, hfinish, List.nil_append]

end Mode

theorem exists_trimEnd_append (s : List Char) :
    ∃ blank, blank.all isWhiteSpace = true ∧ s = trimEnd s ++ blank := by
  refine ⟨(s.reverse.takeWhile isWhiteSpace).reverse, ?_, ?_⟩
  · rw [List.all_reverse]
    exact List.all_takeWhile
  · rw [trimEnd, ← List.reverse_append, List.takeWhile_append_dropWhile, List.reverse_reverse]

/-- **White space at the end** of a text makes no difference, unless it belongs to a literal. -/
theorem scan_trimEnd {s : List Char} (h : (Mode.between.after s).isInLiteral = false) :
    scan (trimEnd s) = scan s := by
  obtain ⟨blank, hblank, hs⟩ := exists_trimEnd_append s
  -- white space does not end a literal, so the machine is outside of literals before it as well
  have hout : (Mode.between.after (trimEnd s)).isInLiteral = false := by
    rw [Bool.eq_false_iff]
    intro hin
    rw [hs, Mode.after_append, Mode.isInLiteral_after hblank hin] at h
    cases h
  have hrun := Mode.run_append .between (trimEnd s) blank
  rw [← hs, Mode.run_blanks hblank hout] at hrun
  rw [Mode.scan_eq_run, Mode.scan_eq_run, hrun]
  rfl

/-- **A cut between two items**: what is before it and what is after it are read independently. -/
theorem scan_append {s : List Char} (h : Mode.between.after s = .between) (t : List Char) :
    scan (s ++ t) = scan s ++ scan t := by
  have hs : scan s = (Mode.between.trace s).1 := by
    rw [Mode.scan_eq_run, Mode.run, h]
    exact List.append_nil _
  rw [hs, Mode.scan_eq_run, Mode.scan_eq_run, Mode.run_append, h]

end PredicateText

/-! ### Patterns -/

namespace Pattern

open PredicateText

/-- The offset at which a pattern ends if `later` are the patterns after it. -/
def stopOffset (source : List Char) (later : List PatternEntry) : Nat :=
  match later with
  | [] => Utf8.size source
  | next :: _ => next.start

/-- The texts of the patterns, with the white space at their ends. -/
def pieces (source : List Char) : (table : List PatternEntry) → List (List Char)
  | [] => []
  | entry :: later => piece source entry.start (stopOffset source later) :: pieces source later

/-- What the patterns that start at `first` and `later` have to be like for the reader to be in the
middle of nothing at each start but the first, and outside of literals at the end of the text.  The
reader starts where the first pattern does. -/
structure CutsBetweenItems (source : List Char) (first : PatternEntry)
    (later : List PatternEntry) : Prop where
  ordered : (first :: later).Pairwise fun a b => a.start ≤ b.start
  boundary : ∀ entry ∈ first :: later, Utf8.IsBoundary entry.start source
  between : ∀ entry ∈ later,
    Mode.between.after (piece source first.start entry.start) = .between
  terminated :
    (Mode.between.after (piece source first.start (Utf8.size source))).isInLiteral = false

theorem predicates_split (source : List Char) (index : Nat) (table : List PatternEntry) :
    (split source index table).map (·.predicates)
      = (pieces source table).map fun text => scan (trimEnd text) := by
  induction table generalizing index with
  | nil => rfl
  | cons entry later ih =>
    cases later with
    | nil => rfl
    | cons next later => exact congrArg _ (ih (index + 1))

namespace CutsBetweenItems

variable {source : List Char} {first next : PatternEntry} {later : List PatternEntry}

/-- The piece from the first pattern on goes through the start of the next one. -/
theorem piece_first (h : CutsBetweenItems source first (next :: later)) {stop : Nat}
    (hstop : Utf8.IsBoundary stop source) (hle : next.start ≤ stop) :
    piece source first.start stop
      = piece source first.start next.start ++ piece source next.start stop := by
  have hfirst := h.boundary first (by simp)
  have hnext := h.boundary next (by simp)
  have hordered := List.rel_of_pairwise_cons h.ordered (List.mem_cons_self (a := next))
  exact piece_append hfirst hnext hstop hordered hle

theorem tail (h : CutsBetweenItems source first (next :: later)) :
    CutsBetweenItems source next later where
  ordered := h.ordered.of_cons
  boundary entry hentry := h.boundary entry (List.mem_cons_of_mem first hentry)
  -- the reader that starts at `next` is where the one that starts at `first` is, since this one is
  -- in the middle of nothing when it comes to `next`
  between entry hentry := by
    have hle := List.rel_of_pairwise_cons h.ordered.of_cons hentry
    have hboundary := h.boundary entry (by simp [hentry])
    have hwhole := h.between entry (List.mem_cons_of_mem next hentry)
    rwa [h.piece_first hboundary hle, Mode.after_append, h.between next List.mem_cons_self]
      at hwhole
  terminated := by
    have hle := (h.boundary next (by simp)).le_size
    have hwhole := h.terminated
    rwa [h.piece_first (Utf8.isBoundary_size source) hle, Mode.after_append,
      h.between next List.mem_cons_self] at hwhole

/-- The pieces, with the white space at their ends or without it, have the predicates of the whole
text. -/
theorem scan_pieces (h : CutsBetweenItems source first later) :
    ((pieces source (first :: later)).map fun text => scan (trimEnd text))
      = (pieces source (first :: later)).map scan ∧
    (pieces source (first :: later)).flatMap scan
      = scan (piece source first.start (Utf8.size source)) := by
  induction later generalizing first with
  | nil =>
    refine ⟨?_, List.append_nil _⟩
    exact congrArg (fun ps => [ps]) (scan_trimEnd h.terminated)
  | cons next later ih =>
    obtain ⟨htrim, hall⟩ := ih h.tail
    have hbetween := h.between next List.mem_cons_self
    have hle := (h.boundary next (by simp)).le_size
    constructor
    · rw [pieces, List.map_cons, List.map_cons, htrim]
      congr 1
      apply scan_trimEnd
      show (Mode.between.after (piece source first.start next.start)).isInLiteral = false
      rw [hbetween]
      rfl
    · rw [pieces, List.flatMap_cons, hall, h.piece_first (Utf8.isBoundary_size source) hle,
        scan_append hbetween]
      rfl

end CutsBetweenItems

end Pattern

/-- **No predicate is lost and none is made up** when a query is cut into patterns.  If the cuts are
between items, the predicates of the patterns, in their order, are those of the text of the query
from the start of the first pattern to its end; and the white space that is dropped at the end of
each pattern does not change the predicates that are read from it. -/
theorem Query.predicates_patterns (q : Query) {first : PatternEntry} {later : List PatternEntry}
    (htable : q.compiled.table = first :: later)
    (hcuts : Pattern.CutsBetweenItems q.source.toList first later) :
    q.patterns.flatMap (·.predicates)
      = Predicate.allIn (.ofList
          (Pattern.piece q.source.toList first.start (Utf8.size q.source.toList))) ∧
    q.patterns.map (·.predicates)
      = (Pattern.pieces q.source.toList (first :: later)).map PredicateText.scan := by
  obtain ⟨htrim, hall⟩ := hcuts.scan_pieces
  have hpatterns : q.patterns.map (·.predicates)
      = (Pattern.pieces q.source.toList (first :: later)).map PredicateText.scan := by
    rw [Query.patterns, Query.patternsAt, htable, Pattern.predicates_split, htrim]
  refine ⟨?_, hpatterns⟩
  rw [List.flatMap_def, hpatterns, ← List.flatMap_def, hall, Predicate.allIn,
    String.toList_ofList]

/-- Three patterns, the first of them not at the start of the text: white space in a literal, what
looks like a form in a comment at the end of a pattern and in a literal, and a form that is not
closed. -/
theorem Query.predicates_patterns_three :
    let first : PatternEntry := ⟨4, true, false⟩
    let later : List PatternEntry := [⟨38, true, false⟩, ⟨47, true, false⟩]
    let q : Query := ⟨1, .javascript,
      ";é\n((a) @x (#eq? @x \"é \"))  ; (#no)\n(b) \"(#\"\n((c) (#set! k v ",
      ⟨["x"], first :: later⟩⟩
    Pattern.CutsBetweenItems q.source.toList first later ∧
    q.patterns.flatMap (·.predicates)
      = [⟨"eq?", [.capture "x", .text "é "]⟩, ⟨"set!", [.text "k", .text "v"]⟩] := by
  intro first later q
  have hcuts : Pattern.CutsBetweenItems q.source.toList first later :=
    ⟨by decide +kernel, by decide +kernel, by decide +kernel, by decide +kernel⟩
  refine ⟨hcuts, (q.predicates_patterns rfl hcuts).1.trans ?_⟩
  rw [Predicate.allIn, PredicateText.Mode.scan_eq_run]
  decide +kernel

end SyntaxView
