import SyntaxView.Proofs.Course
import SyntaxView.Proofs.Places

/-!
# Nodes and cursors of a session

What a session knows by a name is sound (`Session.Sound`) if every node, cursor and query cursor
looks at a tree that the session has, and a query cursor at one of the language of its query.  No
two names share a tree, so the number of a tree is enough to tell what looks at it.

An action that leaves the trees alone can only add what is of the tree it names (`Session.Adds`,
for the tree `Session.subject?`).  This is proved of all commands on nodes, cursors and queries,
and a sound session to which such things are added is sound (`Sound.of_adds`).

`outcome_cases` sums up what one action can do: add in this way, or make, edit or delete one tree.
It is all that is needed to know of the commands when it comes to runs.
-/

namespace SyntaxView

/-! ### What an answer shows -/

/-- The nodes that the answer to an action shows. -/
def Answer.shown : Answer → List Node
  | .node n => n.toList
  | .nodes ns => ns
  | .nodeInfo n => [n]
  | .cursor c => [c.node]
  | .walked seen after => after.node :: seen
  | .outlined _ after => [after.node]
  | .found ms _ => ms.flatMap QueryMatch.nodes
  | .queryCursor c => [c.node]
  | .executed ms _ _ => ms.flatMap fun m => (m.map QueryMatch.nodes).getD []
  | _ => []

/-- The tree that an answer says is new. -/
def Answer.newTree? : Answer → Option Tree
  | .newTree t => some t
  | _ => none

namespace Session

/-- A tree that a session has, in the form it has now. -/
def Live (s : Session) (t : Tree) : Prop := ∃ h, s.trees.get? h = some t

/-- The tree that an action names, by its own name or by that of a node or a cursor of it. -/
def subject? (s : Session) : Action → Option Tree
  | .tree (.info h) | .tree (.edit h _ _ _) | .tree (.changedRanges h _ _) | .tree (.delete h)
  | .node (.root h _) | .node (.null h _) | .cursor (.walkTree h _) => s.trees.get? h
  | .node (.info h) | .node (.expression h _) | .node (.child h _ _) | .node (.children h)
  | .node (.descendants h) | .node (.childByFieldName h _ _ _) | .node (.fieldNameForChild h _)
  | .node (.descendantForByteRange h _ _ _ _) | .node (.firstChildForByte h _ _ _)
  | .node (.go h _ _) | .node (.same h _) | .cursor (.walkNode h _)
  | .query (.findAll _ h _ _) | .query (.open _ h _) => (s.nodes.get? h).map (·.tree)
  | .cursor (.go h _) | .cursor (.info h) | .cursor (.node h _) | .cursor (.reset h _)
  | .cursor (.preorder h) | .cursor (.outline h) | .cursor (.write h _) =>
    (s.cursors.get? h).map (·.tree)
  | .query (.setByteRange h _ _) | .query (.setMatchLimit h _) | .query (.applySettings h _)
  | .query (.execute h _ _ _) | .query (.didExceed h) =>
    (s.queryCursors.get? h).map (·.cursor.node.tree)
  | _ => none

/-! ### The invariant -/

/-- All that a session knows by a name looks at a tree that the session has, and no two names
share a tree. -/
structure Sound (s : Session) : Prop where
  id_le : ∀ h t, s.trees.get? h = some t → t.id ≤ s.treeCount
  id_inj : ∀ h k t u, s.trees.get? h = some t → s.trees.get? k = some u → t.id = u.id → h = k
  nodes : ∀ e ∈ s.nodes.entries, ∃ t, s.Live t ∧ e.2.IsOf t
  cursors : ∀ e ∈ s.cursors.entries, ∃ t, s.Live t ∧ e.2.IsOf t
  queryCursors : ∀ e ∈ s.queryCursors.entries, ∃ t, s.Live t ∧ e.2.cursor.IsOf t

/-- The outcome of an action that leaves the trees alone.  All that is new, in the answer or under
a name, is of the tree `subject`. -/
structure Adds (s : Session) (subject : Option Tree) (o : Outcome) : Prop where
  trees_eq : o.2.trees = s.trees
  treeCount_eq : o.2.treeCount = s.treeCount
  answer : ∀ n ∈ o.1.shown, ∃ t ∈ subject, n.IsOf t
  nodes : ∀ e ∈ o.2.nodes.entries, e ∈ s.nodes.entries ∨ ∃ t ∈ subject, e.2.IsOf t
  cursors : ∀ e ∈ o.2.cursors.entries, e ∈ s.cursors.entries ∨ ∃ t ∈ subject, e.2.IsOf t
  queryCursors : ∀ e ∈ o.2.queryCursors.entries,
    e ∈ s.queryCursors.entries ∨ ∃ t ∈ subject, e.2.cursor.IsOf t

variable {compiler : QueryCompiler} {s : Session} {subject : Option Tree} {t : Tree}

namespace Sound

theorem start (files : FileSystem) (check : LanguageCheck) : Sound (.start files check) where
  id_le := by simp [Session.start, Bindings.get?, Bindings.empty]
  id_inj := by simp [Session.start, Bindings.get?, Bindings.empty]
  nodes := by simp [Session.start, Bindings.empty]
  cursors := by simp [Session.start, Bindings.empty]
  queryCursors := by simp [Session.start, Bindings.empty]

theorem live_inj (hs : Sound s) {u : Tree} (ht : s.Live t) (hu : s.Live u) (hid : t.id = u.id) :
    t = u := by
  obtain ⟨h, hh⟩ := ht
  obtain ⟨k, hk⟩ := hu
  obtain rfl := hs.id_inj h k t u hh hk hid
  exact Option.some.inj (hh.symm.trans hk)

theorem node_of_mem (hs : Sound s) {e : Handle × Node} (he : e ∈ s.nodes.entries) :
    s.Live e.2.tree ∧ e.2.IsOf e.2.tree := by
  obtain ⟨t, hlive, hof⟩ := hs.nodes e he
  obtain rfl := hof.1
  exact ⟨hlive, hof⟩

theorem cursor_of_mem (hs : Sound s) {e : Handle × Cursor} (he : e ∈ s.cursors.entries) :
    s.Live e.2.tree ∧ e.2.IsOf e.2.tree := by
  obtain ⟨t, hlive, hof⟩ := hs.cursors e he
  obtain rfl := hof.tree_eq
  exact ⟨hlive, hof⟩

theorem queryCursor_of_mem (hs : Sound s) {e : Handle × NamedQueryCursor}
    (he : e ∈ s.queryCursors.entries) :
    s.Live e.2.cursor.node.tree ∧ e.2.cursor.IsOf e.2.cursor.node.tree := by
  obtain ⟨t, hlive, hof⟩ := hs.queryCursors e he
  obtain rfl := hof.node.1
  exact ⟨hlive, hof⟩

theorem node (hs : Sound s) {h : Handle} {n : Node} (hn : s.nodes.get? h = some n) :
    s.Live n.tree ∧ n.IsOf n.tree :=
  hs.node_of_mem (Bindings.mem_entries_of_get? hn)

theorem cursor (hs : Sound s) {h : Handle} {c : Cursor} (hc : s.cursors.get? h = some c) :
    s.Live c.tree ∧ c.IsOf c.tree :=
  hs.cursor_of_mem (Bindings.mem_entries_of_get? hc)

theorem queryCursor (hs : Sound s) {h : Handle} {c : NamedQueryCursor}
    (hc : s.queryCursors.get? h = some c) :
    s.Live c.cursor.node.tree ∧ c.cursor.IsOf c.cursor.node.tree :=
  hs.queryCursor_of_mem (Bindings.mem_entries_of_get? hc)

/-- The tree that an action names is there. -/
theorem live_subject (hs : Sound s) {a : Action} (ht : t ∈ s.subject? a) : s.Live t := by
  unfold subject? at ht
  split at ht
  all_goals first
    | exact ⟨_, ht⟩
    | cases ht
    | obtain ⟨x, hx, rfl⟩ := Option.map_eq_some_iff.1 ht
  all_goals first
    | exact (hs.node hx).1
    | exact (hs.cursor hx).1
    | exact (hs.queryCursor hx).1

/-- **Additions**: what is new looks at a tree that is there. -/
theorem of_adds (hs : Sound s) {o : Outcome} (ho : Adds s subject o)
    (hsubject : ∀ t ∈ subject, s.Live t) : Sound o.2 := by
  have hlive : ∀ t, s.Live t → o.2.Live t := by
    intro t ht
    rw [Live, ho.trees_eq]
    exact ht
  constructor
  · rw [ho.trees_eq, ho.treeCount_eq]
    exact hs.id_le
  · rw [ho.trees_eq]
    exact hs.id_inj
  · intro e he
    rcases ho.nodes e he with he | ⟨t, ht, hof⟩
    · obtain ⟨t, ht, hof⟩ := hs.nodes e he
      exact ⟨t, hlive t ht, hof⟩
    · exact ⟨t, hlive t (hsubject t ht), hof⟩
  · intro e he
    rcases ho.cursors e he with he | ⟨t, ht, hof⟩
    · obtain ⟨t, ht, hof⟩ := hs.cursors e he
      exact ⟨t, hlive t ht, hof⟩
    · exact ⟨t, hlive t (hsubject t ht), hof⟩
  · intro e he
    rcases ho.queryCursors e he with he | ⟨t, ht, hof⟩
    · obtain ⟨t, ht, hof⟩ := hs.queryCursors e he
      exact ⟨t, hlive t ht, hof⟩
    · exact ⟨t, hlive t (hsubject t ht), hof⟩

end Sound

/-! ### Commands that add -/

namespace Adds

/-- An action that touches nothing that a node or a cursor depends on, and shows no nodes. -/
theorem apart {o : Outcome} (htrees : o.2.trees = s.trees)
    (hcount : o.2.treeCount = s.treeCount) (hnodes : o.2.nodes = s.nodes)
    (hcursors : o.2.cursors = s.cursors) (hquery : o.2.queryCursors = s.queryCursors)
    (hanswer : o.1.shown = []) : Adds s subject o where
  trees_eq := htrees
  treeCount_eq := hcount
  answer := by simp [hanswer]
  nodes := fun _ he => .inl (hnodes ▸ he)
  cursors := fun _ he => .inl (hcursors ▸ he)
  queryCursors := fun _ he => .inl (hquery ▸ he)

theorem answered {answer : Answer} (hanswer : ∀ n ∈ answer.shown, ∃ t ∈ subject, n.IsOf t) :
    Adds s subject (answer, s) :=
  ⟨rfl, rfl, hanswer, fun _ he => .inl he, fun _ he => .inl he, fun _ he => .inl he⟩

theorem refuse (r : Refusal) : Adds s subject (s.refuse r) :=
  answered (by simp [Answer.shown])

theorem bindNode (ht : t ∈ subject) {h : Option Handle} {n : Option Node}
    (hn : ∀ m, n = some m → m.IsOf t) {answer : Answer}
    (hanswer : ∀ m ∈ answer.shown, m.IsOf t) : Adds s subject (answer, s.bindNode h n) := by
  have hanswer' : ∀ m ∈ answer.shown, ∃ t ∈ subject, m.IsOf t :=
    fun m hm => ⟨t, ht, hanswer m hm⟩
  cases h with
  | none => exact answered hanswer'
  | some h =>
    refine ⟨rfl, rfl, hanswer', ?_, fun _ he => .inl he, fun _ he => .inl he⟩
    intro e he
    cases n with
    | none => exact .inl (Bindings.mem_entries_unbind.1 he).1
    | some m =>
      rcases Bindings.mem_entries_bind.1 he with rfl | ⟨he, -⟩
      · exact .inr ⟨t, ht, hn m rfl⟩
      · exact .inl he

theorem answerNode (ht : t ∈ subject) {h : Option Handle} {n : Option Node}
    (hn : ∀ m, n = some m → m.IsOf t) : Adds s subject (s.answerNode h n) := by
  refine bindNode ht hn ?_
  intro m hm
  exact hn m (Option.mem_toList.1 hm)

theorem bindCursor (ht : t ∈ subject) {h : Handle} {c : Cursor} (hc : c.IsOf t)
    {answer : Answer} (hanswer : ∀ m ∈ answer.shown, m.IsOf t) :
    Adds s subject (answer, s.bindCursor h c) := by
  refine ⟨rfl, rfl, fun m hm => ⟨t, ht, hanswer m hm⟩, fun _ he => .inl he, ?_,
    fun _ he => .inl he⟩
  intro e he
  rcases Bindings.mem_entries_bind.1 he with rfl | ⟨he, -⟩
  · exact .inr ⟨t, ht, hc⟩
  · exact .inl he

theorem bindQueryCursor (ht : t ∈ subject) {h : Handle} {c : NamedQueryCursor}
    (hc : c.cursor.IsOf t) {answer : Answer} (hanswer : ∀ m ∈ answer.shown, m.IsOf t) :
    Adds s subject (answer, { s with queryCursors := s.queryCursors.bind h c }) := by
  refine ⟨rfl, rfl, fun m hm => ⟨t, ht, hanswer m hm⟩, fun _ he => .inl he,
    fun _ he => .inl he, ?_⟩
  intro e he
  rcases Bindings.mem_entries_bind.1 he with rfl | ⟨he, -⟩
  · exact .inr ⟨t, ht, hc⟩
  · exact .inl he

/-- An action may forget query cursors first. -/
theorem of_forgetQuery {h : Handle} {o : Outcome} (ho : Adds (s.forgetQuery h) subject o) :
    Adds s subject o where
  trees_eq := ho.trees_eq
  treeCount_eq := ho.treeCount_eq
  answer := ho.answer
  nodes := ho.nodes
  cursors := ho.cursors
  queryCursors := by
    intro e he
    rcases ho.queryCursors e he with he | hnew
    · exact .inl (Bindings.mem_entries_keep.1 he).1
    · exact .inr hnew

/-- An action may go to the cache first. -/
theorem of_cache (cache : QueryCache) (count : Nat) {o : Outcome}
    (ho : Adds { s with cache := cache, serialCount := count } subject o) : Adds s subject o :=
  ⟨ho.trees_eq, ho.treeCount_eq, ho.answer, ho.nodes, ho.cursors, ho.queryCursors⟩

theorem bindQuery {h : Handle} {q : NamedQuery} {answer : Answer} (hanswer : answer.shown = []) :
    Adds s subject (answer, s.bindQuery h q) :=
  of_forgetQuery (h := h) (apart rfl rfl rfl rfl rfl hanswer)

end Adds

theorem adds_performNode (hs : Sound s) (c : NodeCommand) :
    Adds s (s.subject? (.node c)) (s.performNode c) := by
  cases c with
  | root tree h =>
    refine withBound_cases Adds.refuse fun t ht => ?_
    refine Adds.answerNode (t := t) ht ?_
    rintro m ⟨⟩
    exact Node.isOf_root t
  | null tree h =>
    refine withBound_cases Adds.refuse fun t ht => ?_
    refine Adds.answerNode (t := t) ht ?_
    rintro m ⟨⟩
    exact Node.isOf_null t
  | info node =>
    refine withBound_cases Adds.refuse fun n hn => Adds.answered ?_
    intro m hm
    obtain rfl := List.mem_singleton.1 hm
    exact ⟨_, Option.map_eq_some_iff.2 ⟨m, hn, rfl⟩, (hs.node hn).2⟩
  | expression node reply =>
    exact withBound_cases Adds.refuse fun n hn => Adds.answered (by simp [Answer.shown])
  | child node index h =>
    refine withBound_cases Adds.refuse fun n hn => ?_
    refine withResult_cases Adds.refuse fun c hc => ?_
    refine Adds.answerNode (Option.map_eq_some_iff.2 ⟨n, hn, rfl⟩) ?_
    rintro m ⟨⟩
    exact (hs.node hn).2.child hc
  | children node =>
    refine withBound_cases Adds.refuse fun n hn => Adds.answered fun m hm => ?_
    exact ⟨_, Option.map_eq_some_iff.2 ⟨n, hn, rfl⟩, (hs.node hn).2.of_mem_children hm⟩
  | descendants node =>
    refine withBound_cases Adds.refuse fun n hn => Adds.answered fun m hm => ?_
    exact ⟨_, Option.map_eq_some_iff.2 ⟨n, hn, rfl⟩, (hs.node hn).2.of_mem_descendants hm⟩
  | childByFieldName node name h reply =>
    refine withBound_cases Adds.refuse fun n hn => ?_
    refine withResult_cases Adds.refuse fun c hc => ?_
    refine Adds.answerNode (Option.map_eq_some_iff.2 ⟨n, hn, rfl⟩) ?_
    rintro m rfl
    exact (hs.node hn).2.childByFieldName hc
  | fieldNameForChild node index =>
    refine withBound_cases Adds.refuse fun n hn => ?_
    exact withResult_cases Adds.refuse fun name _ => Adds.answered (by simp [Answer.shown])
  | descendantForByteRange node start stop h replies =>
    refine withBound_cases Adds.refuse fun n hn => ?_
    refine withResult_cases Adds.refuse fun d hd => ?_
    refine Adds.answerNode (Option.map_eq_some_iff.2 ⟨n, hn, rfl⟩) ?_
    rintro m ⟨⟩
    exact (hs.node hn).2.descendantForByteRange hd
  | firstChildForByte node offset h replies =>
    refine withBound_cases Adds.refuse fun n hn => ?_
    refine withResult_cases Adds.refuse fun c hc => ?_
    refine Adds.answerNode (Option.map_eq_some_iff.2 ⟨n, hn, rfl⟩) ?_
    rintro m ⟨⟩
    exact (hs.node hn).2.firstChildForByte hc
  | go node way h =>
    refine withBound_cases Adds.refuse fun n hn => ?_
    refine Adds.answerNode (Option.map_eq_some_iff.2 ⟨n, hn, rfl⟩) ?_
    intro m hm
    exact (hs.node hn).2.go hm
  | same a b =>
    refine withBound_cases Adds.refuse fun m _ => ?_
    exact withBound_cases Adds.refuse fun n _ => Adds.answered (by simp [Answer.shown])

theorem adds_withOutline (hs : Sound s) {cursor : Handle} {next : String → Cursor → Answer}
    (hnext : ∀ text c, ∀ n ∈ (next text c).shown, n = c.node) :
    Adds s ((s.cursors.get? cursor).map (·.tree)) (s.withOutline cursor next) := by
  refine withBound_cases Adds.refuse fun c hc => ?_
  have hof := (hs.cursor hc).2
  cases hout : c.outline? with
  | none => exact Adds.refuse _
  | some result =>
    obtain ⟨text, after⟩ := result
    have hafter : after.IsOf c.tree := hof.outline? hout
    refine Adds.bindCursor (Option.map_eq_some_iff.2 ⟨c, hc, rfl⟩) hafter ?_
    intro n hn
    rw [hnext text after n hn]
    exact hafter.node

theorem adds_performCursor (hs : Sound s) (c : CursorCommand) :
    Adds s (s.subject? (.cursor c)) (s.performCursor c) := by
  cases c with
  | walkTree tree h =>
    refine withBound_cases Adds.refuse fun t ht => ?_
    refine Adds.bindCursor (t := t) ht (Cursor.isOf_ofTree t) ?_
    intro n hn
    obtain rfl := List.mem_singleton.1 hn
    exact (Cursor.isOf_ofTree t).node
  | walkNode node h =>
    refine withBound_cases Adds.refuse fun n hn => ?_
    refine withResult_cases Adds.refuse fun c hc => ?_
    have hof : c.IsOf n.tree := Cursor.isOf_ofNode (hs.node hn).2 hc
    refine Adds.bindCursor (Option.map_eq_some_iff.2 ⟨n, hn, rfl⟩) hof ?_
    intro m hm
    obtain rfl := List.mem_singleton.1 hm
    exact hof.node
  | go cursor move =>
    refine withBound_cases Adds.refuse fun c hc => ?_
    refine Adds.bindCursor (Option.map_eq_some_iff.2 ⟨c, hc, rfl⟩) ((hs.cursor hc).2.go move) ?_
    simp [Answer.shown]
  | info cursor =>
    refine withBound_cases Adds.refuse fun c hc => Adds.answered fun n hn => ?_
    obtain rfl := List.mem_singleton.1 hn
    exact ⟨_, Option.map_eq_some_iff.2 ⟨c, hc, rfl⟩, (hs.cursor hc).2.node⟩
  | node cursor h =>
    refine withBound_cases Adds.refuse fun c hc => ?_
    refine Adds.answerNode (Option.map_eq_some_iff.2 ⟨c, hc, rfl⟩) ?_
    rintro n ⟨⟩
    exact (hs.cursor hc).2.node
  | reset cursor node =>
    refine withBound_cases Adds.refuse fun c hc => ?_
    refine withBound_cases Adds.refuse fun n hn => ?_
    refine withResult_cases Adds.refuse fun c' hreset => ?_
    obtain ⟨hlivec, -⟩ := hs.cursor hc
    obtain ⟨hliven, hof⟩ := hs.node hn
    -- a cursor is put on a node of a tree of the same number, which is then the same tree
    have htree : n.tree = c.tree := hs.live_inj hliven hlivec (Cursor.tree_id_of_reset hreset)
    rw [htree] at hof
    refine Adds.bindCursor (Option.map_eq_some_iff.2 ⟨c, hc, rfl⟩)
      (Cursor.isOf_reset hof hreset) ?_
    simp [Answer.shown]
  | preorder cursor =>
    refine withBound_cases Adds.refuse fun c hc => ?_
    have hof := (hs.cursor hc).2
    refine Adds.bindCursor (Option.map_eq_some_iff.2 ⟨c, hc, rfl⟩) hof.preorder ?_
    intro n hn
    rcases List.mem_cons.1 hn with rfl | hn
    · exact hof.preorder.node
    · exact hof.of_mem_preorder hn
  | outline cursor => exact adds_withOutline hs (by simp [Answer.shown])
  | write cursor before => exact adds_withOutline hs (by simp [Answer.shown])

theorem adds_changeQuery {h : Handle} (check : Query → Except Fault Unit) :
    Adds s subject (s.changeQuery h check) := by
  refine withBound_cases Adds.refuse fun q _ => Adds.of_forgetQuery (h := h) ?_
  show Adds _ _ (if q.shared then _ else _)
  split
  · exact Adds.refuse _
  · exact withResult_cases Adds.refuse fun _ _ => Adds.answered (by simp [Answer.shown])

theorem adds_changeQueryCursor (hs : Sound s) {h : Handle}
    (change : QueryCursor → Except Fault QueryCursor)
    (hchange : ∀ t c c', c.IsOf t → change c = .ok c' → c'.IsOf t) :
    Adds s ((s.queryCursors.get? h).map (·.cursor.node.tree)) (s.changeQueryCursor h change) := by
  refine withBound_cases Adds.refuse fun c hc => ?_
  refine withResult_cases Adds.refuse fun c' hc' => ?_
  refine Adds.bindQueryCursor (Option.map_eq_some_iff.2 ⟨c, hc, rfl⟩)
    (hchange _ _ _ (hs.queryCursor hc).2 hc') ?_
  simp [Answer.shown]

theorem adds_performQuery (hs : Sound s) (c : QueryCommand) :
    Adds s (s.subject? (.query c)) (s.performQuery compiler c) := by
  cases c with
  | new h language source =>
    refine withResult_cases Adds.refuse fun l _ => Adds.of_cache s.cache (s.serialCount + 1) ?_
    exact withResult_cases Adds.refuse fun q _ => Adds.bindQuery rfl
  | cached h language source =>
    refine withResult_cases Adds.refuse fun l _ => ?_
    obtain ⟨cache, hone⟩ := exists_getOrCompile_eq compiler s l source
    show Adds s _ ((s.getOrCompile compiler l source).2.withResult _ fun q =>
      (_, (s.getOrCompile compiler l source).2.bindQuery h _))
    rw [hone]
    refine Adds.of_cache cache (s.serialCount + 1) ?_
    exact withResult_cases Adds.refuse fun q _ => Adds.bindQuery rfl
  | fillCache language template first count =>
    refine withResult_cases Adds.refuse fun l _ => ?_
    obtain ⟨cache, serials, -, hfill⟩ := exists_fillCache_eq compiler l template count first s
    show Adds s _ ((fillCache compiler l template first count s).2.withResult _ _)
    rw [hfill]
    refine Adds.of_cache cache serials (withResult_cases Adds.refuse fun _ _ => ?_)
    exact Adds.answered (by simp [Answer.shown])
  | cacheSize => exact Adds.answered (by simp [Answer.shown])
  | clearCache => exact Adds.apart rfl rfl rfl rfl rfl rfl
  | same a b =>
    refine withBound_cases Adds.refuse fun p _ => ?_
    exact withBound_cases Adds.refuse fun q _ => Adds.answered (by simp [Answer.shown])
  | info h table =>
    exact withBound_cases Adds.refuse fun q _ => Adds.answered (by simp [Answer.shown])
  | disablePattern h index => exact adds_changeQuery fun q => q.checkPattern index
  | disableCapture h name => exact adds_changeQuery fun q => q.checkCapture name
  | findAll query node capture reply =>
    refine withBound_cases Adds.refuse fun q _ => ?_
    refine withBound_cases Adds.refuse fun n hn => ?_
    refine withResult_cases Adds.refuse fun found hfound => Adds.answered fun d hd => ?_
    obtain ⟨m, hm, hd⟩ := List.mem_flatMap.1 hd
    exact ⟨_, Option.map_eq_some_iff.2 ⟨n, hn, rfl⟩, (hs.node hn).2.of_mem_findAll hfound hm hd⟩
  | «open» query node h =>
    refine withBound_cases Adds.refuse fun q _ => ?_
    refine withBound_cases Adds.refuse fun n hn => ?_
    refine withResult_cases Adds.refuse fun c hc => ?_
    have hof : c.IsOf n.tree := QueryCursor.isOf_start (hs.node hn).2 hc
    refine Adds.bindQueryCursor (Option.map_eq_some_iff.2 ⟨n, hn, rfl⟩) hof ?_
    intro m hm
    obtain rfl := List.mem_singleton.1 hm
    exact hof.node
  | setByteRange h start stop =>
    exact adds_changeQueryCursor hs (fun c => c.setByteRange start stop)
      fun t c c' hof hc' => hof.setByteRange hc'
  | setMatchLimit h limit =>
    refine adds_changeQueryCursor hs (fun c => .ok (c.setMatchLimit limit)) ?_
    rintro t c c' hof ⟨⟩
    exact hof.setMatchLimit limit
  | applySettings h text =>
    refine withBound_cases Adds.refuse fun _ _ => ?_
    refine withSettings_cases Adds.refuse fun settings => adds_changeQueryCursor hs _ ?_
    rintro t c c' hof ⟨⟩
    cases settings.matchLimit with
    | none => exact hof
    | some limit => exact hof.setMatchLimit limit
  | execute h count capture replies =>
    refine withBound_cases Adds.refuse fun c hc => ?_
    have hof := (hs.queryCursor hc).2
    let engine (range : Option (Nat × Nat)) (_ : Option Nat) : QueryRun :=
      (replies.lookup range).getD ⟨[], false⟩
    refine Adds.bindQueryCursor (t := c.cursor.node.tree) (Option.map_eq_some_iff.2 ⟨c, hc, rfl⟩)
      (hof.execute engine) ?_
    intro d hd
    obtain ⟨shown, hshown, hd⟩ := List.mem_flatMap.1 hd
    obtain ⟨k, -, rfl⟩ := List.mem_map.1 hshown
    exact hof.of_mem_execute_getElem? engine hd
  | didExceed h =>
    exact withBound_cases Adds.refuse fun c _ => Adds.answered (by simp [Answer.shown])

end Session

/-! ### New trees -/

namespace Parser

variable {p : Parser} {engine : ParseEngine} {id : Nat} {t : Tree}

theorem of_parseSource {source : Source} {old : Option Syntax}
    (h : p.parseSource engine id source old = .ok t) :
    t.id = id ∧ t.source = source ∧ p.language = some t.language := by
  unfold parseSource at h
  split at h
  · cases h
  · next hlanguage =>
    split at h
    · cases h
    · cases h
      exact ⟨rfl, rfl, hlanguage⟩

theorem of_parse {text : String} (h : p.parse engine id text = .ok t) :
    t.id = id ∧ t.source = .encode text p.encoding ∧ p.language = some t.language :=
  of_parseSource h

theorem of_reparse {old : Tree} (h : p.reparse engine id old = .ok t) :
    old.encoding = p.encoding ∧ t.id = id ∧ t.source = old.source
      ∧ p.language = some t.language := by
  unfold reparse at h
  split_ifs at h with hencoding
  exact ⟨not_not.1 hencoding, of_parseSource h⟩

/-- A file is parsed by the parser as it is afterwards. -/
theorem of_parseFile {check : LanguageCheck} {files : FileSystem} {path : String}
    (h : (p.parseFile engine check files id path).1 = .ok t) :
    ∃ text, files.readText path = .ok text ∧
      t.id = id ∧ t.source = .encode text (p.parseFile engine check files id path).2.encoding ∧
      (p.parseFile engine check files id path).2.language = some t.language := by
  revert h
  unfold parseFile
  cases p.forFile check files path with
  | error fault => simp
  | ok q =>
    cases hread : files.readText path with
    | error error => simp
    | ok text =>
      intro h
      exact ⟨text, rfl, of_parse h⟩

end Parser

/-- The parser with which a command makes a tree. -/
def ParserCommand.maker? : ParserCommand → Option Handle
  | .parse parser _ _ _ => some parser
  | .parseFile parser _ _ _ => some parser
  | .reparse parser _ _ _ => some parser
  | _ => none

namespace Session

variable {compiler : QueryCompiler} {s : Session} {subject : Option Tree} {t : Tree}

/-! ### What an action can do -/

/-- What a command gives a parser to parse. -/
def source? (s : Session) (p : Parser) : ParserCommand → Option Source
  | .parse _ text _ _ => some (.encode text p.encoding)
  | .parseFile _ path _ _ => (s.files.readText path).toOption.map (.encode · p.encoding)
  | .reparse _ tree _ _ =>
    (s.trees.get? tree).bind fun t => if t.encoding = p.encoding then some t.source else none
  | _ => none

/-- The tree is what a command makes: a new tree, of the language that the parser now has and of
the source that it was given. -/
structure Makes (s : Session) (parsers : Bindings Parser) (c : ParserCommand) (t : Tree) :
    Prop where
  id_eq : t.id = s.treeCount + 1
  made : ∃ h p, c.maker? = some h ∧ parsers.get? h = some p ∧
    p.language = some t.language ∧ s.source? p c = some t.source

theorem performParser_cases {P : Outcome → Prop} (c : ParserCommand)
    (hadds : ∀ o, Adds s none o → o.1.newTree? = none → P o)
    (hnew : ∀ parsers lent h t, Makes s parsers c t →
      P (.newTree t, { s with
        parsers := parsers, lent := lent, treeCount := s.treeCount + 1 }.bindTree h t)) :
    P (s.performParser c) := by
  have hrefused : ∀ r, P (s.refuse r) := fun r => hadds _ (Adds.refuse r) rfl
  -- a command that touches parsers only
  have hparsers : ∀ o : Outcome, o.2.trees = s.trees → o.2.treeCount = s.treeCount →
      o.2.nodes = s.nodes → o.2.cursors = s.cursors → o.2.queryCursors = s.queryCursors →
      o.1.shown = [] → o.1.newTree? = none → P o :=
    fun o h₁ h₂ h₃ h₄ h₅ h₆ => hadds o (Adds.apart h₁ h₂ h₃ h₄ h₅ h₆)
  cases c with
  | new h => exact hparsers _ rfl rfl rfl rfl rfl rfl rfl
  | newFor h language =>
    refine withResult_cases hrefused fun l _ => ?_
    exact withResult_cases hrefused fun p _ => hparsers _ rfl rfl rfl rfl rfl rfl rfl
  | newFrom h text =>
    refine withSettings_cases hrefused fun settings => ?_
    exact withResult_cases hrefused fun p _ => hparsers _ rfl rfl rfl rfl rfl rfl rfl
  | setLanguage h language =>
    refine withBound_cases hrefused fun p _ => withResult_cases hrefused fun l _ => ?_
    exact withResult_cases hrefused fun p _ => hparsers _ rfl rfl rfl rfl rfl rfl rfl
  | setEncoding h encoding =>
    exact withBound_cases hrefused fun p _ => hparsers _ rfl rfl rfl rfl rfl rfl rfl
  | info h => exact withBound_cases hrefused fun p _ => hparsers _ rfl rfl rfl rfl rfl rfl rfl
  | reset h => exact withBound_cases hrefused fun p _ => hparsers _ rfl rfl rfl rfl rfl rfl rfl
  | delete h => exact withBound_cases hrefused fun p _ => hparsers _ rfl rfl rfl rfl rfl rfl rfl
  | parse parser text h reply =>
    refine withBound_cases hrefused fun p hp => ?_
    refine withResult_cases hrefused fun t ht => hnew s.parsers s.lent h t ?_
    obtain ⟨hid, hsource, hlanguage⟩ := Parser.of_parse ht
    exact ⟨hid, parser, p, rfl, hp, hlanguage, congrArg some hsource.symm⟩
  | parseFile parser path h reply =>
    refine withBound_cases hrefused fun p _ => ?_
    let made := p.parseFile (fun _ _ _ => reply) s.check s.files (s.treeCount + 1) path
    show P ((s.bindParser parser made.2).addTree h made.1)
    refine withResult_cases ?_ fun t ht => ?_
    · -- the parser may have a language now even if there is no tree
      exact fun r => hparsers _ rfl rfl rfl rfl rfl rfl rfl
    · obtain ⟨text, hread, hid, hsource, hlanguage⟩ := Parser.of_parseFile ht
      refine hnew _ _ h t ⟨hid, parser, made.2, rfl, Bindings.get?_bind_self _ _ _, hlanguage, ?_⟩
      rw [source?, hread, hsource]
      rfl
  | reparse parser tree h reply =>
    refine withBound_cases hrefused fun p hp => ?_
    refine withBound_cases hrefused fun old hold => ?_
    refine withResult_cases hrefused fun t ht => hnew s.parsers s.lent h t ?_
    obtain ⟨hencoding, hid, hsource, hlanguage⟩ := Parser.of_reparse ht
    refine ⟨hid, parser, p, rfl, hp, hlanguage, ?_⟩
    rw [source?, hold, hsource]
    exact if_pos hencoding
  | pooled => exact hparsers _ rfl rfl rfl rfl rfl rfl rfl

theorem adds_lend (key : Language × Encoding) (h : Handle) :
    Adds s none (s.outcome compiler (.lend key h)) := by
  refine withResult_cases (fun r => Adds.refuse r) fun lending hlend => ?_
  obtain ⟨_, _, -, rfl⟩ := exists_borrowParser_eq hlend
  exact Adds.apart rfl rfl rfl rfl rfl rfl

theorem adds_returnParser (key : Language × Encoding) (h : Handle) (before : Option Parser) :
    Adds s none (.done, s.returnParser key h before) := by
  unfold returnParser
  split <;> exact Adds.apart rfl rfl rfl rfl rfl rfl

/-- **One action** leaves the trees alone, makes a tree, edits one or deletes one. -/
theorem outcome_cases {P : Outcome → Prop} (hs : Sound s) (a : Action)
    (hadds : ∀ o, Adds s (s.subject? a) o → P o)
    (hnew : ∀ parsers lent h t, t.id = s.treeCount + 1 →
      P (.newTree t, { s with
        parsers := parsers, lent := lent, treeCount := s.treeCount + 1 }.bindTree h t))
    (hedit : ∀ h t edit text engine, s.subject? a = some t → s.trees.get? h = some t →
      P (.nodes (Node.root (t.edit edit text engine)).descendants,
        { s.forgetTree t.id with trees := s.trees.bind h (t.edit edit text engine) }))
    (hdelete : ∀ h t, s.trees.get? h = some t → P (.done, s.dropTree h)) :
    P (s.outcome compiler a) := by
  have hrefused : ∀ r, P (s.refuse r) := fun r => hadds _ (Adds.refuse r)
  cases a with
  | parser c =>
    exact performParser_cases c (fun o ho _ => hadds o ho)
      fun parsers lent h t ht => hnew parsers lent h t ht.id_eq
  | tree c =>
    cases c with
    | info h =>
      exact withBound_cases hrefused fun t _ => hadds _ (Adds.answered (by simp [Answer.shown]))
    | edit h edit text replies =>
      exact withBound_cases hrefused fun t ht => hedit h t edit text _ ht ht
    | changedRanges h other reply =>
      refine withBound_cases hrefused fun t _ => ?_
      exact withBound_cases hrefused fun u _ => hadds _ (Adds.answered (by simp [Answer.shown]))
    | delete h => exact withBound_cases hrefused fun t ht => hdelete h t ht
  | node c => exact hadds _ (adds_performNode hs c)
  | cursor c => exact hadds _ (adds_performCursor hs c)
  | query c => exact hadds _ (adds_performQuery hs c)
  | lend key h => exact hadds _ (adds_lend key h)
  | giveBack key h before => exact hadds _ (adds_returnParser key h before)

end Session

end SyntaxView
