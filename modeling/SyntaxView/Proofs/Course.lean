import SyntaxView.Session.Run

/-!
# The course of a run

A command that borrows a parser has commands in it, so a run goes through more sessions than those
between its own commands.  `Session.course` has all of it in a row: the commands without others in
them as they come, and the two ends of each loan around what is done during the loan.  A loan for
which no parser is to be had has no actions (`withParser_cases`).  A run is the same as its course,
one action after the other (`afterActions_course`), and the sessions a run goes through are those
after the first actions of its course (`Session.moment`).

What each action keeps is then kept at every moment of every run (`afterActions_keeps`).  For one
action, `withBound_cases` and its companions are the ways in which a command can go on or be
refused, and `exists_performNode_eq` and its companions are what each kind of command can touch, so
that no proof has to look into them again.
-/

namespace SyntaxView

/-! ### Lookups -/

/-- A key whose entries are taken out is not found any more, and the others are found as before. -/
theorem lookup_filter_ne {κ α : Type} [DecidableEq κ] [BEq κ] [LawfulBEq κ]
    (entries : List (κ × α)) (h k : κ) :
    (entries.filter (·.1 != h)).lookup k = if k = h then none else entries.lookup k := by
  induction entries with
  | nil => simp
  | cons e rest ih =>
    obtain ⟨name, a⟩ := e
    by_cases hname : name = h
    · -- the entry is dropped, and it is not the one that `k` asks for unless `k` is `h`
      by_cases hk : k = h
      · simpa [hname, hk] using ih
      · have hne : (k == h) = false := by simpa using hk
        simpa [List.lookup_cons, hname, hk, hne] using ih
    · by_cases hk : k = name
      · simp [hk, hname]
      · have hne : (k == name) = false := by simpa using hk
        simpa [List.lookup_cons, hname, hne] using ih

namespace Bindings

variable {α : Type}

theorem get?_unbind (b : Bindings α) (h k : Handle) :
    (b.unbind h).get? k = if k = h then none else b.get? k :=
  lookup_filter_ne b.entries h k

theorem get?_bind (b : Bindings α) (h k : Handle) (a : α) :
    (b.bind h a).get? k = if k = h then some a else b.get? k := by
  by_cases hk : k = h
  · rw [if_pos hk, hk, get?_bind_self]
  · have hne : (k == h) = false := by simpa using hk
    have hrest := b.get?_unbind h k
    rw [if_neg hk] at hrest ⊢
    simpa [bind, get?, List.lookup_cons, hne] using hrest

end Bindings

/-! ### The course -/

/-- One action of a run: a command that has no others in it, the start of a loan or its end. -/
inductive Action where
  | parser (command : ParserCommand)
  | tree (command : TreeCommand)
  | node (command : NodeCommand)
  | cursor (command : CursorCommand)
  | query (command : QueryCommand)
  | lend (key : Language × Encoding) (h : Handle)
  | giveBack (key : Language × Encoding) (h : Handle) (before : Option Parser)
  deriving Repr

namespace Session

variable (compiler : QueryCompiler)

/-! ### Actions -/

/-- What an action answers, and the session after it.  The ends of a loan have nothing to answer,
unless no parser is to be had. -/
def outcome (s : Session) : Action → Outcome
  | .parser c => s.performParser c
  | .tree c => s.performTree c
  | .node c => s.performNode c
  | .cursor c => s.performCursor c
  | .query c => s.performQuery compiler c
  | .lend key h => s.withResult (s.borrowParser key h) fun lending => (.done, lending)
  | .giveBack key h before => (.done, s.returnParser key h before)

/-- The session after an action. -/
def act (s : Session) (a : Action) : Session := (s.outcome compiler a).2

/-- The session after a number of actions. -/
def afterActions (s : Session) (actions : List Action) : Session := actions.foldl (act compiler) s

mutual

/-- The actions of one command. -/
def courseOf : Command → Session → List Action
  | .parser c, _ => [.parser c]
  | .tree c, _ => [.tree c]
  | .node c, _ => [.node c]
  | .cursor c, _ => [.cursor c]
  | .query c, _ => [.query c]
  | .withParser language encoding h body, s =>
    match Language.ofName language with
    | .error _ => []
    | .ok l =>
      let key := (l, encoding)
      match s.borrowParser key h with
      | .error _ => []
      | .ok lending =>
        .lend key h :: (course body lending ++ [.giveBack key h (s.parsers.get? h)])

/-- The actions of a list of commands, in order. -/
def course : List Command → Session → List Action
  | [], _ => []
  | c :: cs, s => courseOf c s ++ course cs (step compiler c s).2

end

/-- The session after the first `count` actions of a run. -/
def moment (commands : List Command) (s : Session) (count : Nat) : Session :=
  s.afterActions compiler ((course compiler commands s).take count)

variable {compiler : QueryCompiler}

/-- Where a parser is to be had, the loan starts with it. -/
theorem act_lend {s lending : Session} {key : Language × Encoding} {h : Handle}
    (hlend : s.borrowParser key h = .ok lending) : s.act compiler (.lend key h) = lending := by
  rw [act, outcome, hlend]
  rfl

/-- Where none is to be had, nothing happens. -/
theorem act_lend_of_error {s : Session} {key : Language × Encoding} {h : Handle} {fault : Fault}
    (hlend : s.borrowParser key h = .error fault) : s.act compiler (.lend key h) = s := by
  rw [act, outcome, hlend]
  rfl

/-- **A loan is refused or made.**  It is refused for an unknown language or if no parser is to be
had, and then it has no actions and nothing is changed. -/
theorem withParser_cases (compiler : QueryCompiler) (s : Session) (language : String)
    (encoding : Encoding) (h : Handle) (body : List Command) :
    let c := Command.withParser language encoding h body
    (∃ fault,
      (Language.ofName language = .error fault ∨
        ∃ l, Language.ofName language = .ok l ∧ s.borrowParser (l, encoding) h = .error fault) ∧
      step compiler c s = s.refuse (.fault fault) ∧ courseOf compiler c s = []) ∨
    (∃ l lending,
      Language.ofName language = .ok l ∧ s.borrowParser (l, encoding) h = .ok lending ∧
      step compiler c s = (.answers (run compiler body lending).1,
        (run compiler body lending).2.returnParser (l, encoding) h (s.parsers.get? h)) ∧
      courseOf compiler c s = .lend (l, encoding) h ::
        (course compiler body lending ++ [.giveBack (l, encoding) h (s.parsers.get? h)])) := by
  intro c
  rw [step, courseOf]
  cases hlanguage : Language.ofName language with
  | error fault => exact .inl ⟨fault, .inl rfl, rfl, rfl⟩
  | ok l =>
    dsimp only
    cases hlend : s.borrowParser (l, encoding) h with
    | error fault => exact .inl ⟨fault, .inr ⟨l, rfl, hlend⟩, rfl, rfl⟩
    | ok lending => exact .inr ⟨l, lending, rfl, hlend, rfl, rfl⟩

theorem afterActions_append (s : Session) (before later : List Action) :
    s.afterActions compiler (before ++ later)
      = (s.afterActions compiler before).afterActions compiler later :=
  List.foldl_append

/-- A loan: its body is run on the session that has the parser out, and then the parser is put
back. -/
theorem afterActions_loan {s lending : Session} {key : Language × Encoding} {h : Handle}
    (hlend : s.borrowParser key h = .ok lending) (body : List Action) (before : Option Parser) :
    s.afterActions compiler (.lend key h :: (body ++ [.giveBack key h before]))
      = (lending.afterActions compiler body).returnParser key h before := by
  show (s.act compiler (.lend key h)).afterActions compiler (body ++ _) = _
  rw [act_lend hlend, afterActions_append]
  rfl

mutual

theorem afterActions_courseOf : ∀ (c : Command) (s : Session),
    s.afterActions compiler (courseOf compiler c s) = (step compiler c s).2
  | .parser c, s => by rw [courseOf, step]; rfl
  | .tree c, s => by rw [courseOf, step]; rfl
  | .node c, s => by rw [courseOf, step]; rfl
  | .cursor c, s => by rw [courseOf, step]; rfl
  | .query c, s => by rw [courseOf, step]; rfl
  | .withParser language encoding h body, s => by
    rcases withParser_cases compiler s language encoding h body with
      ⟨fault, -, hstep, hcourse⟩ | ⟨l, lending, -, hlend, hstep, hcourse⟩
    · rw [hstep, hcourse]
      rfl
    · have hbody := afterActions_course body lending
      rw [hstep, hcourse, afterActions_loan hlend, hbody]

/-- **A run is its course**, one action after the other. -/
theorem afterActions_course : ∀ (cs : List Command) (s : Session),
    s.afterActions compiler (course compiler cs s) = (run compiler cs s).2
  | [], s => by rw [course, run]; rfl
  | c :: cs, s => by
    rw [course, run, afterActions_append, afterActions_courseOf c s,
      afterActions_course cs (step compiler c s).2]

end

/-- What every action keeps is kept by any number of actions. -/
theorem afterActions_keeps {P : Session → Prop} (hstep : ∀ s a, P s → P (s.act compiler a))
    {s : Session} (hs : P s) (actions : List Action) : P (s.afterActions compiler actions) := by
  induction actions generalizing s with
  | nil => exact hs
  | cons a actions ih => exact ih (hstep s a hs)

/-! ### Ways on

A command goes on with what a name stands for, with a result or with settings, or it is refused.
-/

section

variable {s : Session} {P : Outcome → Prop} (hrefused : ∀ r, P (s.refuse r))

include hrefused

theorem withBound_cases {α : Type} {b : Bindings α} {h : Handle} {next : α → Outcome}
    (hnext : ∀ a, b.get? h = some a → P (next a)) : P (s.withBound b h next) := by
  unfold withBound
  split
  · exact hrefused _
  · exact hnext _ ‹_›

theorem withResult_cases {α : Type} {result : Except Fault α} {next : α → Outcome}
    (hnext : ∀ a, result = .ok a → P (next a)) : P (s.withResult result next) := by
  unfold withResult
  split
  · exact hrefused _
  · exact hnext _ rfl

theorem withSettings_cases {text : String} {next : Settings → Outcome}
    (hnext : ∀ settings, P (next settings)) : P (s.withSettings text next) := by
  unfold withSettings
  split
  · exact hrefused _
  · exact hnext _

end

/-! ### The cache

Compiling through the cache touches the cache and the numbers, and nothing else.
-/

theorem exists_getOrCompile_eq (compiler : QueryCompiler) (s : Session) (l : Language)
    (source : String) :
    ∃ cache, (s.getOrCompile compiler l source).2
      = { s with cache := cache, serialCount := s.serialCount + 1 } :=
  ⟨_, rfl⟩

theorem exists_fillCache_eq (compiler : QueryCompiler) (l : Language) (template : String) :
    ∀ (count first : Nat) (s : Session), ∃ cache serials, s.serialCount ≤ serials ∧
      (fillCache compiler l template first count s).2
        = { s with cache := cache, serialCount := serials }
  | 0, _, s => ⟨s.cache, s.serialCount, Nat.le_refl _, rfl⟩
  | count + 1, first, s => by
    obtain ⟨cache, hone⟩ := exists_getOrCompile_eq compiler s l (fillTemplate template first)
    rw [fillCache]
    split
    · -- the first text that does not compile ends it
      next heq =>
      rw [heq] at hone
      exact ⟨cache, s.serialCount + 1, Nat.le_succ _, hone⟩
    · next after heq =>
      obtain ⟨cache', serials, hle, hrest⟩ :=
        exists_fillCache_eq compiler l template count (first + 1) after
      rw [heq] at hone
      subst hone
      exact ⟨cache', serials, Nat.le_of_succ_le hle, hrest⟩

/-! ### What a command can touch

One lemma for each kind of command.  They say what the session after a command differs in from the
one before, and so what is the same in both.
-/

theorem exists_bindNode_eq (s : Session) (h : Option Handle) (n : Option Node) :
    ∃ nodes, s.bindNode h n = { s with nodes := nodes } := by
  cases h with
  | none => exact ⟨s.nodes, rfl⟩
  | some h => exact ⟨_, rfl⟩

theorem exists_dropTree_eq (s : Session) (h : Handle) :
    ∃ trees nodes cursors queryCursors, s.dropTree h = { s with
      trees := trees, nodes := nodes, cursors := cursors, queryCursors := queryCursors } := by
  unfold dropTree
  cases s.trees.get? h with
  | none => exact ⟨s.trees, s.nodes, s.cursors, s.queryCursors, rfl⟩
  | some t => exact ⟨_, _, _, _, rfl⟩

/-- A command on nodes touches nodes. -/
theorem exists_performNode_eq (s : Session) (c : NodeCommand) :
    ∃ nodes, (s.performNode c).2 = { s with nodes := nodes } := by
  let P (o : Outcome) : Prop := ∃ nodes, o.2 = { s with nodes := nodes }
  have hrefused : ∀ r, P (s.refuse r) := fun _ => ⟨s.nodes, rfl⟩
  have hanswered : ∀ answer, P (answer, s) := fun _ => ⟨s.nodes, rfl⟩
  have hnode : ∀ h n, P (s.answerNode h n) := fun h n => s.exists_bindNode_eq h n
  show P (s.performNode c)
  cases c
  case root | null | go => exact withBound_cases hrefused fun _ _ => hnode _ _
  case info | expression | children | descendants =>
    exact withBound_cases hrefused fun _ _ => hanswered _
  case child | childByFieldName | descendantForByteRange | firstChildForByte =>
    exact withBound_cases hrefused fun _ _ => withResult_cases hrefused fun _ _ => hnode _ _
  case fieldNameForChild =>
    exact withBound_cases hrefused fun _ _ => withResult_cases hrefused fun _ _ => hanswered _
  case same =>
    exact withBound_cases hrefused fun _ _ => withBound_cases hrefused fun _ _ => hanswered _

/-- A command on cursors touches nodes and cursors. -/
theorem exists_performCursor_eq (s : Session) (c : CursorCommand) :
    ∃ nodes cursors, (s.performCursor c).2 = { s with nodes := nodes, cursors := cursors } := by
  let P (o : Outcome) : Prop :=
    ∃ nodes cursors, o.2 = { s with nodes := nodes, cursors := cursors }
  have hrefused : ∀ r, P (s.refuse r) := fun _ => ⟨s.nodes, s.cursors, rfl⟩
  have hcursor : ∀ answer h c, P (answer, s.bindCursor h c) := fun _ _ _ => ⟨s.nodes, _, rfl⟩
  have houtline : ∀ cursor next, P (s.withOutline cursor next) := by
    intro cursor next
    refine withBound_cases hrefused fun c _ => ?_
    cases c.outline? with
    | none => exact hrefused _
    | some result => exact hcursor _ _ _
  show P (s.performCursor c)
  cases c
  case walkTree | go | preorder => exact withBound_cases hrefused fun _ _ => hcursor _ _ _
  case walkNode =>
    exact withBound_cases hrefused fun _ _ => withResult_cases hrefused fun _ _ => hcursor _ _ _
  case info => exact withBound_cases hrefused fun _ _ => ⟨s.nodes, s.cursors, rfl⟩
  case node cursor h =>
    refine withBound_cases hrefused fun c _ => ?_
    obtain ⟨nodes, hnodes⟩ := s.exists_bindNode_eq h (some c.node)
    exact ⟨nodes, s.cursors, hnodes⟩
  case reset =>
    refine withBound_cases hrefused fun _ _ => withBound_cases hrefused fun _ _ => ?_
    exact withResult_cases hrefused fun _ _ => hcursor _ _ _
  case outline | write => exact houtline _ _

/-- A command on queries touches queries, their cursors, the cache and the numbers, of which it may
use up some. -/
theorem exists_performQuery_eq (compiler : QueryCompiler) (s : Session) (c : QueryCommand) :
    ∃ queries queryCursors cache count, s.serialCount ≤ count ∧
      (s.performQuery compiler c).2 = { s with
        queries := queries, queryCursors := queryCursors, cache := cache,
        serialCount := count } := by
  let P (o : Outcome) : Prop := ∃ queries queryCursors cache count, s.serialCount ≤ count ∧
    o.2 = { s with
      queries := queries, queryCursors := queryCursors, cache := cache, serialCount := count }
  have hcounted : ∀ answer queryCursors cache,
      P (answer, { s with queryCursors := queryCursors, cache := cache }) :=
    fun _ queryCursors cache =>
      ⟨s.queries, queryCursors, cache, s.serialCount, Nat.le_refl _, rfl⟩
  have hsame : ∀ answer, P (answer, s) := fun answer => hcounted answer s.queryCursors s.cache
  have hrefused : ∀ r, P (s.refuse r) := fun _ => hsame _
  have hquery : ∀ h check, P (s.changeQuery h check) := by
    intro h check
    have hforgotten : ∀ answer, P (answer, s.forgetQuery h) := fun answer => hcounted answer _ _
    refine withBound_cases hrefused fun q _ => ?_
    show P (if q.shared then _ else _)
    split
    · exact hforgotten _
    · exact withResult_cases (fun _ => hforgotten _) fun _ _ => hforgotten _
  have hcursor : ∀ h change, P (s.changeQueryCursor h change) := by
    intro h change
    refine withBound_cases hrefused fun c _ => withResult_cases hrefused fun _ _ => ?_
    exact hcounted _ _ s.cache
  -- a text is compiled under the next number, even if it is then refused
  have hcompiled : ∀ cache result h shared,
      let after : Session := { s with cache := cache, serialCount := s.serialCount + 1 }
      P (after.withResult result fun q => (.newQuery q, after.bindQuery h ⟨q, shared⟩)) := by
    intro cache result h shared after
    refine withResult_cases ?_ fun q _ => ?_
    · exact fun _ => ⟨s.queries, s.queryCursors, cache, _, Nat.le_succ _, rfl⟩
    · exact ⟨_, _, cache, _, Nat.le_succ _, rfl⟩
  show P (s.performQuery compiler c)
  cases c
  case new => exact withResult_cases hrefused fun _ _ => hcompiled s.cache _ _ _
  case cached => exact withResult_cases hrefused fun _ _ => hcompiled _ _ _ _
  case fillCache language template first count =>
    refine withResult_cases hrefused fun l _ => ?_
    obtain ⟨cache, serials, hle, hfill⟩ := exists_fillCache_eq compiler l template count first s
    show P ((fillCache compiler l template first count s).2.withResult _ _)
    rw [hfill]
    have hfilled : ∀ answer, P (answer, { s with cache := cache, serialCount := serials }) :=
      fun _ => ⟨s.queries, s.queryCursors, cache, serials, hle, rfl⟩
    exact withResult_cases (fun _ => hfilled _) fun _ _ => hfilled _
  case cacheSize => exact hsame _
  case clearCache => exact hcounted _ s.queryCursors _
  case same =>
    exact withBound_cases hrefused fun _ _ => withBound_cases hrefused fun _ _ => hsame _
  case info | didExceed => exact withBound_cases hrefused fun _ _ => hsame _
  case disablePattern | disableCapture => exact hquery _ _
  case findAll =>
    refine withBound_cases hrefused fun _ _ => withBound_cases hrefused fun _ _ => ?_
    exact withResult_cases hrefused fun _ _ => hsame _
  case «open» =>
    refine withBound_cases hrefused fun _ _ => withBound_cases hrefused fun _ _ => ?_
    exact withResult_cases hrefused fun _ _ => hcounted _ _ s.cache
  case setByteRange | setMatchLimit => exact hcursor _ _
  case applySettings =>
    exact withBound_cases hrefused fun _ _ => withSettings_cases hrefused fun _ => hcursor _ _
  case execute => exact withBound_cases hrefused fun _ _ => hcounted _ _ s.cache

/-- A command on trees touches trees and what looks at them. -/
theorem exists_performTree_eq (s : Session) (c : TreeCommand) :
    ∃ trees nodes cursors queryCursors, (s.performTree c).2 = { s with
      trees := trees, nodes := nodes, cursors := cursors, queryCursors := queryCursors } := by
  let P (o : Outcome) : Prop := ∃ trees nodes cursors queryCursors, o.2 = { s with
    trees := trees, nodes := nodes, cursors := cursors, queryCursors := queryCursors }
  have hsame : ∀ answer, P (answer, s) :=
    fun _ => ⟨s.trees, s.nodes, s.cursors, s.queryCursors, rfl⟩
  have hrefused : ∀ r, P (s.refuse r) := fun _ => hsame _
  show P (s.performTree c)
  cases c
  case info => exact withBound_cases hrefused fun _ _ => hsame _
  case edit => exact withBound_cases hrefused fun _ _ => ⟨_, _, _, _, rfl⟩
  case changedRanges =>
    exact withBound_cases hrefused fun _ _ => withBound_cases hrefused fun _ _ => hsame _
  case delete h => exact withBound_cases hrefused fun _ _ => s.exists_dropTree_eq h

/-- A command on parsers touches parsers, trees and what looks at them, and the numbers.  Parsers
that are in the pool are not among those it touches. -/
theorem exists_performParser_eq (s : Session) (c : ParserCommand) :
    ∃ parsers lent trees nodes cursors queryCursors treeCount serialCount,
      (s.performParser c).2 = { s with
        parsers := parsers, lent := lent, trees := trees, nodes := nodes, cursors := cursors,
        queryCursors := queryCursors, treeCount := treeCount, serialCount := serialCount } := by
  let P (o : Outcome) : Prop :=
    ∃ parsers lent trees nodes cursors queryCursors treeCount serialCount, o.2 = { s with
      parsers := parsers, lent := lent, trees := trees, nodes := nodes, cursors := cursors,
      queryCursors := queryCursors, treeCount := treeCount, serialCount := serialCount }
  have hsame : ∀ answer, P (answer, s) := fun _ => ⟨s.parsers, s.lent, s.trees, s.nodes, s.cursors,
    s.queryCursors, s.treeCount, s.serialCount, rfl⟩
  have hrefused : ∀ r, P (s.refuse r) := fun _ => hsame _
  have hparser : ∀ answer count h p,
      P (answer, ({ s with serialCount := count } : Session).bindParser h p) :=
    fun _ count _ _ => ⟨_, _, s.trees, s.nodes, s.cursors, s.queryCursors, s.treeCount, count, rfl⟩
  have htree : ∀ parsers lent h result,
      P (({ s with parsers := parsers, lent := lent } : Session).addTree h result) := by
    intro parsers lent h result
    refine withResult_cases ?_ fun t _ => ?_
    · exact fun _ => ⟨parsers, lent, s.trees, s.nodes, s.cursors, s.queryCursors, s.treeCount,
        s.serialCount, rfl⟩
    · obtain ⟨trees, nodes, cursors, queryCursors, hdrop⟩ := exists_dropTree_eq { s with
        parsers := parsers, lent := lent, treeCount := s.treeCount + 1 } h
      refine ⟨parsers, lent, trees.bind h t, nodes, cursors, queryCursors, s.treeCount + 1,
        s.serialCount, ?_⟩
      show (Session.bindTree _ h t) = _
      rw [bindTree, hdrop]
  show P (s.performParser c)
  cases c
  case new => exact hparser _ _ _ _
  case newFor =>
    refine withResult_cases hrefused fun _ _ => ?_
    exact withResult_cases hrefused fun _ _ => hparser _ _ _ _
  case newFrom =>
    refine withSettings_cases hrefused fun _ => ?_
    exact withResult_cases hrefused fun _ _ => hparser _ _ _ _
  case setLanguage =>
    refine withBound_cases hrefused fun _ _ => withResult_cases hrefused fun _ _ => ?_
    exact withResult_cases hrefused fun _ _ => hparser _ s.serialCount _ _
  case setEncoding => exact withBound_cases hrefused fun _ _ => hparser _ s.serialCount _ _
  case info | reset => exact withBound_cases hrefused fun _ _ => hsame _
  case delete =>
    exact withBound_cases hrefused fun _ _ => ⟨_, s.lent, s.trees, s.nodes, s.cursors,
      s.queryCursors, s.treeCount, s.serialCount, rfl⟩
  case parse => exact withBound_cases hrefused fun _ _ => htree s.parsers s.lent _ _
  case parseFile => exact withBound_cases hrefused fun _ _ => htree _ _ _ _
  case reparse =>
    refine withBound_cases hrefused fun _ _ => withBound_cases hrefused fun _ _ => ?_
    exact htree s.parsers s.lent _ _
  case pooled => exact hsame _

/-- The session with a parser out under a name and with what is left in the pool. -/
def lendOut (s : Session) (h : Handle) (parser : Parser) (pool : ParserPool) : Session :=
  { s with
    pool := pool, lent := parser :: s.lent, parsers := s.parsers.bind h parser,
    serialCount := s.serialCount + 1 }

/-- The start of a loan touches the pool, the loans, parsers and the numbers: a parser goes out of
the pool under the name. -/
theorem exists_borrowParser_eq {s lending : Session} {key : Language × Encoding} {h : Handle}
    (hlend : s.borrowParser key h = .ok lending) :
    ∃ parser pool, s.pool.take s.check (s.serialCount + 1) key = .ok (parser, pool) ∧
      lending = s.lendOut h parser pool := by
  rw [borrowParser, freshSerial] at hlend
  dsimp only at hlend
  cases htake : s.pool.take s.check (s.serialCount + 1) key with
  | error fault =>
    rw [htake] at hlend
    cases hlend
  | ok taken =>
    rw [htake] at hlend
    exact ⟨taken.1, taken.2, rfl, (Except.ok.inj hlend).symm⟩

theorem borrowParser_eq_error_iff {s : Session} {key : Language × Encoding} {h : Handle}
    {fault : Fault} :
    s.borrowParser key h = .error fault ↔
      s.pool.take s.check (s.serialCount + 1) key = .error fault := by
  rw [borrowParser, freshSerial]
  dsimp only
  cases s.pool.take s.check (s.serialCount + 1) key with
  | error fault => simp
  | ok taken => simp

end Session

end SyntaxView
