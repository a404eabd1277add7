import SyntaxView.Proofs.Handles

/-!
# Handles look at live trees

At every moment of every run, a node, a cursor or a query cursor that has a name looks at a tree
that the session has, in the form that the tree has now.  It is the tree of what the node or cursor
was made from, and once a tree is deleted nothing looks at it ever again: `Session.handles_live`.

The few actions that change the trees first forget what looks at the tree they change, so that a
sound session stays sound (`Sound.retree`); with the other actions, which only add, this makes a
step (`Sound.act`) and a run (`Sound.afterActions`).  That a deleted tree does not come back is seen
from the numbers: a tree that is no newer than a session is one that the session has
(`TreesFrom.afterActions`).
-/

namespace SyntaxView

namespace Session

variable {compiler : QueryCompiler} {s : Session} {subject : Option Tree} {t : Tree}

/-! ### Changes to the trees -/

/-- Nothing that has a name looks at the tree of that number. -/
structure Unseen (s : Session) (id : Nat) : Prop where
  nodes : ∀ e ∈ s.nodes.entries, e.2.tree.id ≠ id
  cursors : ∀ e ∈ s.cursors.entries, e.2.tree.id ≠ id
  queryCursors : ∀ e ∈ s.queryCursors.entries, e.2.cursor.node.tree.id ≠ id

theorem unseen_forgetTree (s : Session) (id : Nat) : (s.forgetTree id).Unseen id where
  nodes := fun _ he => bne_iff_ne.1 (Bindings.mem_entries_keep.1 he).2
  cursors := fun _ he => bne_iff_ne.1 (Bindings.mem_entries_keep.1 he).2
  queryCursors := fun _ he => bne_iff_ne.1 (Bindings.mem_entries_keep.1 he).2

/-- What names stand for after a tree is given up. -/
theorem get?_trees_dropTree (s : Session) (h k : Handle) :
    (s.dropTree h).trees.get? k = if k = h then none else s.trees.get? k := by
  unfold dropTree
  cases hh : s.trees.get? h with
  | none =>
    by_cases hk : k = h
    · rw [if_pos hk, hk, hh]
    · rw [if_neg hk]
  | some t => exact s.trees.get?_unbind h k

theorem get?_trees_bindTree (s : Session) (h k : Handle) (t : Tree) :
    (s.bindTree h t).trees.get? k = if k = h then some t else s.trees.get? k := by
  show ((s.dropTree h).trees.bind h t).get? k = _
  rw [Bindings.get?_bind, get?_trees_dropTree]
  split <;> rfl

@[simp]
theorem treeCount_dropTree (s : Session) (h : Handle) :
    (s.dropTree h).treeCount = s.treeCount := by
  unfold dropTree
  split <;> rfl

@[simp]
theorem treeCount_bindTree (s : Session) (h : Handle) (t : Tree) :
    (s.bindTree h t).treeCount = s.treeCount :=
  s.treeCount_dropTree h

namespace Sound

/-- Nothing can look at a tree that is not there. -/
theorem unseen (hs : Sound s) {id : Nat} (hid : ∀ h t, s.trees.get? h = some t → t.id ≠ id) :
    s.Unseen id := by
  constructor
  · intro e he
    obtain ⟨t, ⟨h, ht⟩, hof⟩ := hs.nodes e he
    rw [hof.1]
    exact hid h t ht
  · intro e he
    obtain ⟨t, ⟨h, ht⟩, hof⟩ := hs.cursors e he
    rw [hof.tree_eq]
    exact hid h t ht
  · intro e he
    obtain ⟨t, ⟨h, ht⟩, hof⟩ := hs.queryCursors e he
    rw [hof.node.1]
    exact hid h t ht

theorem forgetTree (hs : Sound s) (id : Nat) : Sound (s.forgetTree id) where
  id_le := hs.id_le
  id_inj := hs.id_inj
  nodes := fun e he => hs.nodes e (Bindings.mem_entries_keep.1 he).1
  cursors := fun e he => hs.cursors e (Bindings.mem_entries_keep.1 he).1
  queryCursors := fun e he => hs.queryCursors e (Bindings.mem_entries_keep.1 he).1

/-- The trees may change as long as only one of them is lost, and nothing looks at it. -/
theorem retree (hs : Sound s) {id : Nat} (hunseen : s.Unseen id) {trees : Bindings Tree}
    {count : Nat} (hle : ∀ h t, trees.get? h = some t → t.id ≤ count)
    (hinj : ∀ h k t u, trees.get? h = some t → trees.get? k = some u → t.id = u.id → h = k)
    (hkept : ∀ h t, s.trees.get? h = some t → t.id ≠ id → trees.get? h = some t) :
    Sound { s with trees := trees, treeCount := count } where
  id_le := hle
  id_inj := hinj
  nodes := by
    intro e he
    obtain ⟨t, ⟨h, ht⟩, hof⟩ := hs.nodes e he
    have hid : t.id ≠ id := by
      rw [← hof.1]
      exact hunseen.nodes e he
    exact ⟨t, ⟨h, hkept h t ht hid⟩, hof⟩
  cursors := by
    intro e he
    obtain ⟨t, ⟨h, ht⟩, hof⟩ := hs.cursors e he
    have hid : t.id ≠ id := by
      rw [← hof.tree_eq]
      exact hunseen.cursors e he
    exact ⟨t, ⟨h, hkept h t ht hid⟩, hof⟩
  queryCursors := by
    intro e he
    obtain ⟨t, ⟨h, ht⟩, hof⟩ := hs.queryCursors e he
    have hid : t.id ≠ id := by
      rw [← hof.node.1]
      exact hunseen.queryCursors e he
    exact ⟨t, ⟨h, hkept h t ht hid⟩, hof⟩

theorem dropTree (hs : Sound s) (h : Handle) : Sound (s.dropTree h) := by
  unfold Session.dropTree
  cases hh : s.trees.get? h with
  | none => exact hs
  | some t =>
    -- what looks at the tree is forgotten first, and then no more is lost than the tree
    refine (hs.forgetTree t.id).retree (s.unseen_forgetTree t.id) ?_ ?_ ?_
    · intro k u hu
      rw [Bindings.get?_unbind] at hu
      split_ifs at hu
      exact hs.id_le k u hu
    · intro k k' u u' hu hu'
      rw [Bindings.get?_unbind] at hu hu'
      split_ifs at hu hu'
      exact hs.id_inj k k' u u' hu hu'
    · intro k u hu hid
      rw [Bindings.get?_unbind, if_neg]
      · exact hu
      · rintro rfl
        exact hid (congrArg Tree.id (Option.some.inj (hu.symm.trans hh)))

theorem editTree (hs : Sound s) {h : Handle} (ht : s.trees.get? h = some t) {t' : Tree}
    (hid : t'.id = t.id) : Sound { s.forgetTree t.id with trees := s.trees.bind h t' } := by
  refine (hs.forgetTree t.id).retree (s.unseen_forgetTree t.id) ?_ ?_ ?_
  · intro k u hu
    rw [Bindings.get?_bind] at hu
    split_ifs at hu
    · cases hu
      rw [hid]
      exact hs.id_le h t ht
    · exact hs.id_le k u hu
  · -- the tree has kept its number, so the numbers are as different as before
    intro k k' u u' hu hu' hsame
    rw [Bindings.get?_bind] at hu hu'
    split_ifs at hu hu' with hk hk' hk'
    · rw [hk, hk']
    · cases hu
      exact hk.trans (hs.id_inj h k' t u' ht hu' (hid.symm.trans hsame))
    · cases hu'
      exact (hs.id_inj k h u t hu ht (hsame.trans hid)).trans hk'.symm
    · exact hs.id_inj k k' u u' hu hu' hsame
  · intro k u hu hne
    rw [Bindings.get?_bind, if_neg]
    · exact hu
    · rintro rfl
      exact hne (congrArg Tree.id (Option.some.inj (hu.symm.trans ht)))

/-- A name may be given to a tree whose number no other tree has. -/
theorem bindTree (hs : Sound s) (h : Handle) (hle : t.id ≤ s.treeCount)
    (hfresh : ∀ k u, s.trees.get? k = some u → u.id ≠ t.id) : Sound (s.bindTree h t) := by
  have hdrop := hs.dropTree h
  have hold : ∀ k u, (s.dropTree h).trees.get? k = some u → u.id ≠ t.id := by
    intro k u hu
    rw [get?_trees_dropTree] at hu
    split_ifs at hu
    exact hfresh k u hu
  refine hdrop.retree (hdrop.unseen hold) ?_ ?_ ?_
  · intro k u hu
    rw [Bindings.get?_bind] at hu
    split_ifs at hu
    · cases hu
      rw [treeCount_dropTree]
      exact hle
    · exact hdrop.id_le k u hu
  · intro k k' u u' hu hu' hsame
    rw [Bindings.get?_bind] at hu hu'
    split_ifs at hu hu' with hk hk' hk'
    · rw [hk, hk']
    · cases hu
      exact absurd hsame.symm (hold k' u' hu')
    · cases hu'
      exact absurd hsame (hold k u hu)
    · exact hdrop.id_inj k k' u u' hu hu' hsame
  · intro k u hu _
    rw [Bindings.get?_bind, if_neg]
    · exact hu
    · rintro rfl
      simp [get?_trees_dropTree] at hu

/-- A new tree has a number that is larger than all others. -/
theorem addTree (hs : Sound s) (parsers : Bindings Parser) (lent : List Parser) (h : Handle)
    (hid : t.id = s.treeCount + 1) :
    Sound ({ s with
      parsers := parsers, lent := lent, treeCount := s.treeCount + 1 }.bindTree h t) := by
  have hcounted : Sound { s with
      parsers := parsers, lent := lent, treeCount := s.treeCount + 1 } :=
    ⟨fun k u hu => Nat.le_succ_of_le (hs.id_le k u hu), hs.id_inj, hs.nodes, hs.cursors,
      hs.queryCursors⟩
  refine hcounted.bindTree h (Nat.le_of_eq hid) ?_
  intro k u hu
  have hle : u.id ≤ s.treeCount := hs.id_le k u hu
  omega

/-- **Soundness, one action.** -/
theorem act (hs : Sound s) (a : Action) : Sound (s.act compiler a) := by
  refine outcome_cases (P := fun o => Sound o.2) hs a ?_ ?_ ?_ ?_
  · exact fun o ho => hs.of_adds ho fun t ht => hs.live_subject ht
  · exact fun parsers lent h t hid => hs.addTree parsers lent h hid
  · exact fun h t edit text engine _ ht => hs.editTree ht rfl
  · exact fun h t _ => hs.dropTree h

/-- **Soundness, any number of actions.** -/
theorem afterActions (hs : Sound s) (actions : List Action) :
    Sound (s.afterActions compiler actions) :=
  afterActions_keeps (fun _ a hs => hs.act a) hs actions

theorem moment (compiler : QueryCompiler) (files : FileSystem) (check : LanguageCheck)
    (commands : List Command) (count : Nat) :
    Sound (moment compiler commands (.start files check) count) :=
  (start files check).afterActions _

end Sound

/-! ### Trees over time -/

/-- The trees of a session that are no newer than another session are trees of the other session,
under the names they have there, and have kept their language and encoding. -/
structure TreesFrom (s s' : Session) : Prop where
  count_le : s.treeCount ≤ s'.treeCount
  old : ∀ h u, s'.trees.get? h = some u → u.id ≤ s.treeCount →
    ∃ t, s.trees.get? h = some t ∧ t.id = u.id ∧ t.language = u.language
      ∧ t.encoding = u.encoding

namespace TreesFrom

theorem refl (s : Session) : TreesFrom s s :=
  ⟨Nat.le_refl _, fun _ u hu _ => ⟨u, hu, rfl, rfl, rfl⟩⟩

theorem trans {s₁ s₂ s₃ : Session} (h₁ : TreesFrom s₁ s₂) (h₂ : TreesFrom s₂ s₃) :
    TreesFrom s₁ s₃ := by
  refine ⟨Nat.le_trans h₁.count_le h₂.count_le, ?_⟩
  intro h u hu hle
  obtain ⟨v, hv, hid, hlanguage, hencoding⟩ := h₂.old h u hu (Nat.le_trans hle h₁.count_le)
  obtain ⟨t, ht, hid', hlanguage', hencoding'⟩ := h₁.old h v hv (hid ▸ hle)
  exact ⟨t, ht, hid'.trans hid, hlanguage'.trans hlanguage, hencoding'.trans hencoding⟩

theorem act (hs : Sound s) (a : Action) : TreesFrom s (s.act compiler a) := by
  refine outcome_cases (P := fun o => TreesFrom s o.2) hs a ?_ ?_ ?_ ?_
  · intro o ho
    refine ⟨Nat.le_of_eq ho.treeCount_eq.symm, fun h u hu _ => ?_⟩
    rw [ho.trees_eq] at hu
    exact ⟨u, hu, rfl, rfl, rfl⟩
  · intro parsers lent h t hid
    refine ⟨?_, fun k u hu hle => ?_⟩
    · rw [treeCount_bindTree]
      exact Nat.le_succ _
    · rw [get?_trees_bindTree] at hu
      split_ifs at hu
      · -- the new tree is not an old one
        cases hu
        omega
      · exact ⟨u, hu, rfl, rfl, rfl⟩
  · intro h t edit text engine _ ht
    refine ⟨Nat.le_refl _, fun k u hu _ => ?_⟩
    rw [Bindings.get?_bind] at hu
    split_ifs at hu with hk
    · cases hu
      exact ⟨t, hk ▸ ht, rfl, rfl, (t.encoding_edit edit text engine).symm⟩
    · exact ⟨u, hu, rfl, rfl, rfl⟩
  · intro h t _
    refine ⟨Nat.le_of_eq (s.treeCount_dropTree h).symm, fun k u hu _ => ?_⟩
    rw [get?_trees_dropTree] at hu
    split_ifs at hu
    exact ⟨u, hu, rfl, rfl, rfl⟩

theorem afterActions (hs : Sound s) (actions : List Action) :
    TreesFrom s (s.afterActions compiler actions) := by
  induction actions generalizing s with
  | nil => exact refl s
  | cons a actions ih => exact (act hs a).trans (ih (hs.act a))

end TreesFrom

/-- **No way back**: nothing ever looks at a tree again once it is deleted. -/
theorem unseen_of_deleted (hs : Sound s) {h : Handle} (ht : s.trees.get? h = some t)
    (later : List Action) :
    ((s.act compiler (.tree (.delete h))).afterActions compiler later).Unseen t.id := by
  have hsound : Sound (s.act compiler (.tree (.delete h))) := hs.act _
  have hdeleted : s.act compiler (.tree (.delete h)) = s.dropTree h := by
    show (s.withBound s.trees h fun _ => (Answer.done, s.dropTree h)).2 = s.dropTree h
    rw [withBound, ht]
  rw [hdeleted] at hsound ⊢
  refine (hsound.afterActions later).unseen ?_
  intro k u hu hid
  -- such a tree would be an old one, and then one of those that the deletion left
  have hle : u.id ≤ (s.dropTree h).treeCount := by
    rw [hid, treeCount_dropTree]
    exact hs.id_le h t ht
  obtain ⟨v, hv, hvid, -⟩ := (TreesFrom.afterActions hsound later).old k u hu hle
  rw [get?_trees_dropTree] at hv
  split_ifs at hv with hk
  exact hk (hs.id_inj k h v t hv ht (hvid.trans hid))

/-! ### Where handles come from -/

/-- The nodes and cursors of a session are among those of another. -/
structure Fewer (s s' : Session) : Prop where
  nodes : ∀ e ∈ s'.nodes.entries, e ∈ s.nodes.entries
  cursors : ∀ e ∈ s'.cursors.entries, e ∈ s.cursors.entries
  queryCursors : ∀ e ∈ s'.queryCursors.entries, e ∈ s.queryCursors.entries

theorem fewer_forgetTree (s : Session) (id : Nat) : Fewer s (s.forgetTree id) where
  nodes := fun _ he => (Bindings.mem_entries_keep.1 he).1
  cursors := fun _ he => (Bindings.mem_entries_keep.1 he).1
  queryCursors := fun _ he => (Bindings.mem_entries_keep.1 he).1

theorem fewer_dropTree (s : Session) (h : Handle) : Fewer s (s.dropTree h) := by
  unfold dropTree
  split
  · exact ⟨fun _ he => he, fun _ he => he, fun _ he => he⟩
  · next t _ =>
    obtain ⟨hnodes, hcursors, hqueryCursors⟩ := s.fewer_forgetTree t.id
    exact ⟨hnodes, hcursors, hqueryCursors⟩

/-- What an action shows is of a tree that is there afterwards, and like what it gives a name to it
is of the tree that the action names. -/
structure Derived (s : Session) (subject : Option Tree) (o : Outcome) : Prop where
  shown : ∀ n ∈ o.1.shown, o.2.Live n.tree ∧ ∃ t ∈ subject, n.tree.id = t.id
  nodes : ∀ e ∈ o.2.nodes.entries, e ∈ s.nodes.entries ∨ ∃ t ∈ subject, e.2.tree.id = t.id
  cursors : ∀ e ∈ o.2.cursors.entries,
    e ∈ s.cursors.entries ∨ ∃ t ∈ subject, e.2.tree.id = t.id
  queryCursors : ∀ e ∈ o.2.queryCursors.entries,
    e ∈ s.queryCursors.entries ∨ ∃ t ∈ subject, e.2.cursor.node.tree.id = t.id

namespace Derived

theorem of_fewer {o : Outcome} (ho : Fewer s o.2)
    (hshown : ∀ n ∈ o.1.shown, o.2.Live n.tree ∧ ∃ t ∈ subject, n.tree.id = t.id) :
    Derived s subject o :=
  ⟨hshown, fun e he => .inl (ho.nodes e he), fun e he => .inl (ho.cursors e he),
    fun e he => .inl (ho.queryCursors e he)⟩

theorem of_adds {o : Outcome} (ho : Adds s subject o) (hsubject : ∀ t ∈ subject, s.Live t) :
    Derived s subject o where
  shown := by
    intro n hn
    obtain ⟨t, ht, hof⟩ := ho.answer n hn
    obtain rfl := hof.1
    refine ⟨?_, n.tree, ht, rfl⟩
    rw [Live, ho.trees_eq]
    exact hsubject _ ht
  nodes := fun e he => (ho.nodes e he).imp_right fun ⟨t, ht, hof⟩ => ⟨t, ht, by rw [hof.1]⟩
  cursors := fun e he =>
    (ho.cursors e he).imp_right fun ⟨t, ht, hof⟩ => ⟨t, ht, by rw [hof.tree_eq]⟩
  queryCursors := fun e he =>
    (ho.queryCursors e he).imp_right fun ⟨t, ht, hof⟩ => ⟨t, ht, by rw [hof.node.1]⟩

theorem outcome (hs : Sound s) (a : Action) :
    Derived s (s.subject? a) (s.outcome compiler a) := by
  refine outcome_cases (P := Derived s (s.subject? a)) hs a ?_ ?_ ?_ ?_
  · exact fun o ho => of_adds ho fun t ht => hs.live_subject ht
  · intro parsers lent h t _
    refine of_fewer ?_ (by simp [Answer.shown])
    obtain ⟨hnodes, hcursors, hqueryCursors⟩ := fewer_dropTree { s with
      parsers := parsers, lent := lent, treeCount := s.treeCount + 1 } h
    exact ⟨hnodes, hcursors, hqueryCursors⟩
  · intro h t edit text engine hsubject ht
    obtain ⟨hnodes, hcursors, hqueryCursors⟩ := s.fewer_forgetTree t.id
    refine of_fewer ⟨hnodes, hcursors, hqueryCursors⟩ fun n hn => ?_
    -- the nodes of the edited tree are shown, which has kept its number
    have hof := (Node.isOf_root (t.edit edit text engine)).of_mem_descendants hn
    refine ⟨⟨h, ?_⟩, t, hsubject, ?_⟩
    · rw [Bindings.get?_bind, if_pos rfl, hof.1]
    · rw [hof.1]
      rfl
  · exact fun h t _ => of_fewer (s.fewer_dropTree h) (by simp [Answer.shown])

end Derived

/-- **Handle safety**, at every moment of every run.  Nodes, cursors and query cursors look at trees
that are there; cursors and query cursors are on nodes that are not null, and a query cursor runs
on a tree of the language of its query.  Whatever is done next, what comes of it is of the tree it
was asked of, and what looks at a tree is gone for good once the tree is deleted. -/
theorem handles_live (compiler : QueryCompiler) (files : FileSystem) (check : LanguageCheck)
    (commands : List Command) (count : Nat) :
    let m := moment compiler commands (start files check) count
    (∀ h k t u, m.trees.get? h = some t → m.trees.get? k = some u → t.id = u.id → h = k) ∧
    (∀ e ∈ m.nodes.entries, m.Live e.2.tree ∧ e.2.IsOf e.2.tree) ∧
    (∀ e ∈ m.cursors.entries,
      m.Live e.2.tree ∧ e.2.node.IsOf e.2.tree ∧ e.2.node.isNull = false) ∧
    (∀ e ∈ m.queryCursors.entries,
      m.Live e.2.cursor.node.tree ∧ e.2.cursor.node.IsOf e.2.cursor.node.tree ∧
      e.2.cursor.node.isNull = false ∧
      e.2.cursor.query.language = e.2.cursor.node.tree.language) ∧
    (∀ a, Derived m (m.subject? a) (m.outcome compiler a)) ∧
    (∀ h t, m.trees.get? h = some t → ∀ later,
      ((m.act compiler (.tree (.delete h))).afterActions compiler later).Unseen t.id) := by
  intro m
  have hm : Sound m := .moment compiler files check commands count
  refine ⟨hm.id_inj, fun e he => hm.node_of_mem he, ?_, ?_, fun a => Derived.outcome hm a,
    fun h t ht later => unseen_of_deleted hm ht later⟩
  · intro e he
    obtain ⟨hlive, hof⟩ := hm.cursor_of_mem he
    exact ⟨hlive, hof.node, e.2.isNull_node⟩
  · intro e he
    obtain ⟨hlive, hof⟩ := hm.queryCursor_of_mem he
    exact ⟨hlive, hof.node, hof.not_null, hof.language_eq⟩

/-- A node, a cursor and a query cursor of one tree, and the tree on its way out. -/
theorem handles_live_statement :
    let compiler : QueryCompiler := fun _ p => .ok ⟨[p], []⟩
    let commands : List Command :=
      [.parser (.newFor "parser" "javascript"),
        .parser (.parse "parser" "a+b;" "tree" (some Sample.statement)),
        .node (.root "tree" (some "root")), .cursor (.walkNode "root" "walk"),
        .query (.new "query" "javascript" "(name) @n"), .query (.open "query" "root" "search")]
    let m := moment compiler commands (start FileStore.empty.system fun _ => none) 6
    (∃ e ∈ m.nodes.entries, m.Live e.2.tree ∧ e.2.IsOf e.2.tree) ∧
    (∃ e ∈ m.cursors.entries, m.Live e.2.tree ∧ e.2.node.isNull = false) ∧
    (∃ e ∈ m.queryCursors.entries, m.Live e.2.cursor.node.tree ∧
      e.2.cursor.query.language = e.2.cursor.node.tree.language) ∧
    ∃ t, m.trees.get? "tree" = some t ∧ (m.act compiler (.tree (.delete "tree"))).Unseen t.id := by
  intro compiler commands m
  obtain ⟨-, hnodes, hcursors, hqueryCursors, -, hdeleted⟩ :=
    handles_live compiler FileStore.empty.system (fun _ => none) commands 6
  have htree : (m.trees.get? "tree").isSome = true := by decide +kernel
  obtain ⟨t, ht⟩ := Option.isSome_iff_exists.1 htree
  obtain ⟨e₁, h₁⟩ := List.exists_mem_of_length_pos (l := m.nodes.entries) (by decide +kernel)
  obtain ⟨e₂, h₂⟩ := List.exists_mem_of_length_pos (l := m.cursors.entries) (by decide +kernel)
  obtain ⟨e₃, h₃⟩ :=
    List.exists_mem_of_length_pos (l := m.queryCursors.entries) (by decide +kernel)
  obtain ⟨hlive₂, -, hnull₂⟩ := hcursors e₂ h₂
  obtain ⟨hlive₃, -, -, hlanguage₃⟩ := hqueryCursors e₃ h₃
  exact ⟨⟨e₁, h₁, hnodes e₁ h₁⟩, ⟨e₂, h₂, hlive₂, hnull₂⟩, ⟨e₃, h₃, hlive₃, hlanguage₃⟩,
    t, ht, hdeleted "tree" t ht []⟩

end Session

end SyntaxView
