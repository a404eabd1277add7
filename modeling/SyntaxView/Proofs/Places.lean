import SyntaxView.Query.Cursor
import SyntaxView.Session.Nodes
import SyntaxView.Proofs.Walk
import SyntaxView.Proofs.Outline

/-!
# Nodes stay in their tree

A place holds a copy of what is around it, so nothing but the operations themselves can make sure
that a node which is said to be of a tree is a place of that tree.  `Node.IsOf` says both: the node
belongs to the tree, and if it is not null, the tree around its place is the one it belongs to.
Every way from a node leads to nodes of the same tree: to neighbours (`IsOf.go`, `IsOf.child`),
to what the engine names by an index (`isOf_ofIndex`), and to what lies below it
(`IsOf.of_mem_descendants`).  `Cursor.IsOf` says the same of a cursor and its origin, and is kept
by its moves and walks.

It all rests on `Location.whole`: no move changes the tree around a place.
-/

namespace SyntaxView

/-! ### The tree around a place -/

namespace Location

theorem whole_within (outer inner : Location) :
    (outer.within inner).whole = whole ⟨inner.whole, outer.trail⟩ :=
  List.foldl_append

theorem parent?_of_mem_rightward {label : Label} {above : List Frame} {before after : List Syntax}
    {m : Location} (h : m ∈ rightward label above before after) :
    m.parent? = some ⟨.node label (before.reverse ++ after), above⟩ := by
  induction after generalizing before with
  | nil => simp [rightward] at h
  | cons t ts ih =>
    rw [rightward, List.mem_cons] at h
    rcases h with rfl | h
    · rfl
    · rw [ih h, List.reverse_cons, List.append_assoc, List.singleton_append]

theorem whole_of_mem_rightward {label : Label} {above : List Frame} {before after : List Syntax}
    {m : Location} (h : m ∈ rightward label above before after) :
    m.whole = whole ⟨.node label (before.reverse ++ after), above⟩ :=
  (whole_parent? (parent?_of_mem_rightward h)).symm

theorem whole_of_mem_leftward {label : Label} {above : List Frame} {before after : List Syntax}
    {m : Location} (h : m ∈ leftward label above before after) :
    m.whole = whole ⟨.node label (before.reverse ++ after), above⟩ := by
  induction before generalizing after with
  | nil => simp [leftward] at h
  | cons t ts ih =>
    rw [leftward, List.mem_cons] at h
    rcases h with rfl | h
    · simp [whole, Frame.plug]
    · rw [ih h, List.reverse_cons, List.append_assoc, List.singleton_append]

theorem whole_of_mem_children {l m : Location} (h : m ∈ l.children) : m.whole = l.whole := by
  obtain ⟨⟨label, ts⟩, trail⟩ := l
  exact whole_of_mem_rightward h

theorem whole_of_mem_nextSiblings {l m : Location} (h : m ∈ l.nextSiblings) :
    m.whole = l.whole := by
  obtain ⟨t, _ | ⟨f, above⟩⟩ := l
  · simp [nextSiblings] at h
  · rw [whole_of_mem_rightward h, List.reverse_cons, List.append_assoc]
    rfl

theorem whole_of_mem_prevSiblings {l m : Location} (h : m ∈ l.prevSiblings) :
    m.whole = l.whole := by
  obtain ⟨t, _ | ⟨f, above⟩⟩ := l
  · simp [prevSiblings] at h
  · rw [whole_of_mem_leftward h]
    rfl

mutual

theorem whole_of_mem_preorderFrom (trail : List Frame) : ∀ (t : Syntax) (m : Location),
    m ∈ preorderFrom trail t → m.whole = whole ⟨t, trail⟩
  | .node label ts, m, h => by
    rw [preorderFrom, List.mem_cons] at h
    rcases h with rfl | h
    · rfl
    · exact whole_of_mem_preorderAcross trail label [] ts m h

theorem whole_of_mem_preorderAcross (trail : List Frame) (label : Label) (before : List Syntax) :
    ∀ (ts : List Syntax) (m : Location), m ∈ preorderAcross trail label before ts →
      m.whole = whole ⟨.node label (before.reverse ++ ts), trail⟩
  | [], m, h => by
    rw [preorderAcross] at h
    exact absurd h List.not_mem_nil
  | t :: ts, m, h => by
    rw [preorderAcross, List.mem_append] at h
    rcases h with h | h
    · rw [whole_of_mem_preorderFrom _ t m h]
      rfl
    · rw [whole_of_mem_preorderAcross trail label (t :: before) ts m h, List.reverse_cons,
        List.append_assoc, List.singleton_append]

end

theorem whole_of_mem_preorder {l m : Location} (h : m ∈ l.preorder) : m.whole = l.whole :=
  whole_of_mem_preorderFrom l.trail l.focus m h

theorem whole_of_mem_remaining {l m : Location} (h : m ∈ l.remaining) : m.whole = l.whole := by
  obtain ⟨earlier, hl⟩ := exists_preorder_eq_append l
  have hm : m ∈ (root l.whole).preorder := hl ▸ List.mem_append_right earlier h
  exact whole_of_mem_preorder (l := root l.whole) hm

theorem whole_advance {l m : Location} (h : l.advance = .inr m) : m.whole = l.whole := by
  obtain ⟨later, -, hgoes⟩ := advance_spec l
  rw [h] at hgoes
  exact hgoes.2

theorem whole_advance_end {l last : Location} (h : l.advance = .inl last) :
    last.whole = l.whole := by
  obtain ⟨later, -, hgoes⟩ := advance_spec l
  rw [h] at hgoes
  rw [hgoes.2]
  rfl

end Location

namespace Outline

theorem whole_climb {l last : Location} {depth : Nat} (h : climb l depth = some (.inl last)) :
    last.whole = l.whole := by
  fun_induction climb l depth with
  | case1 l hp =>
    obtain rfl : l = last := by simpa using h
    rfl
  | case2 => simp at h
  | case3 => simp at h
  | case4 l p hp depth hs ih => rw [ih h, Location.whole_parent? hp]

theorem whole_advance {l last : Location} {depth : Nat} (h : advance l depth = some (.inl last)) :
    last.whole = l.whole := by
  unfold advance at h
  split at h
  · simp at h
  · split at h
    · simp at h
    · exact whole_climb h

/-- A walk that writes an outline ends in the tree it started in. -/
theorem whole_lines {c : Cursor} {l last : Location} {depth : Nat} {text : String}
    (h : lines c l depth = some (text, last)) : last.whole = l.whole := by
  fun_induction lines c l depth generalizing text with
  | case1 => simp at h
  | case2 l depth written last' =>
    rename_i hadvance
    obtain ⟨-, rfl⟩ := Prod.mk.inj (Option.some.inj h)
    exact whole_advance hadvance
  | case3 => simp at h
  | case4 l depth written m depth' hadvance rest last' hrest =>
    rename_i ih
    obtain ⟨-, rfl⟩ := Prod.mk.inj (Option.some.inj h)
    rw [ih hrest, Location.whole_advance (advance_eq hadvance)]

end Outline

/-! ### Nodes -/

namespace Node

/-- The node belongs to the tree, and its place, if it has one, is a place of this tree. -/
def IsOf (t : Tree) (n : Node) : Prop := n.tree = t ∧ ∀ l, n.place = some l → l.whole = t.shape

variable {t : Tree} {n : Node}

theorem isOf_root (t : Tree) : (root t).IsOf t := by
  refine ⟨rfl, ?_⟩
  intro l hl
  obtain rfl := Option.some.inj hl
  rfl

theorem isOf_null (t : Tree) : (null t).IsOf t := ⟨rfl, by simp [null]⟩

theorem whole_locate? {index : Nat} {l : Location} (h : t.locate? index = some l) :
    l.whole = t.shape :=
  Location.whole_of_mem_preorder (List.mem_of_getElem? h)

theorem isOf_ofIndex (t : Tree) (index : Option Nat) : (ofIndex t index).IsOf t := by
  refine ⟨rfl, ?_⟩
  intro l hl
  obtain ⟨i, -, hi⟩ := Option.bind_eq_some_iff.1 hl
  exact whole_locate? hi

namespace IsOf

theorem atPlace (h : n.IsOf t) {l : Location} (hl : l.whole = t.shape) : (n.atPlace l).IsOf t := by
  refine ⟨h.1, ?_⟩
  intro m hm
  obtain rfl := Option.some.inj hm
  exact hl

theorem of_mem_children (h : n.IsOf t) {c : Node} (hc : c ∈ n.children) : c.IsOf t := by
  unfold children at hc
  split at hc
  · simp at hc
  · next l hl =>
    obtain ⟨m, hm, rfl⟩ := List.mem_map.1 hc
    exact h.atPlace ((Location.whole_of_mem_children hm).trans (h.2 l hl))

theorem child (h : n.IsOf t) {index : Nat} {c : Node} (hc : n.child index = .ok c) :
    c.IsOf t := by
  unfold Node.child at hc
  cases hcheck : n.checkIndex index with
  | error fault =>
    rw [hcheck] at hc
    cases hc
  | ok u =>
    rw [hcheck] at hc
    obtain rfl : _ = c := Except.ok.inj hc
    cases hget : n.children[index]? with
    | none =>
      have hnull := isOf_null n.tree
      rwa [h.1] at hnull ⊢
    | some d => exact h.of_mem_children (List.mem_of_getElem? hget)

theorem childByFieldName (h : n.IsOf t) {name : String} {engine : String → Option Nat} {c : Node}
    (hc : n.childByFieldName name engine = .ok (some c)) : c.IsOf t := by
  unfold Node.childByFieldName at hc
  split at hc
  · cases hc
  · split at hc
    · cases hc
    · obtain ⟨l, hl, rfl⟩ := Option.map_eq_some_iff.1 (Except.ok.inj hc)
      obtain ⟨i, -, hi⟩ := Option.bind_eq_some_iff.1 hl
      rw [h.1] at hi
      exact h.atPlace (whole_locate? hi)

theorem ask (h : n.IsOf t) (index : Option Nat) : (n.ask index).IsOf t := by
  unfold Node.ask
  rw [h.1]
  split
  · exact isOf_null t
  · exact isOf_ofIndex t index

theorem firstChildForByte (h : n.IsOf t) {offset : Nat} {engine : Nat → Option Nat} {c : Node}
    (hc : n.firstChildForByte offset engine = .ok c) : c.IsOf t := by
  unfold Node.firstChildForByte at hc
  cases hcheck : n.checkOffset offset with
  | error fault =>
    rw [hcheck] at hc
    cases hc
  | ok native =>
    rw [hcheck] at hc
    obtain rfl : _ = c := Except.ok.inj hc
    exact h.ask _

theorem descendantForByteRange (h : n.IsOf t) {start stop : Nat}
    {engine : Nat → Nat → Option Nat} {d : Node}
    (hd : n.descendantForByteRange start stop engine = .ok d) : d.IsOf t := by
  unfold Node.descendantForByteRange at hd
  split at hd
  · cases hd
  · obtain rfl : _ = d := Except.ok.inj hd
    exact h.ask _

/-- A neighbour, if every step of that kind stays in the tree. -/
theorem neighbour (h : n.IsOf t) {step : Location → Option Location}
    (hstep : ∀ l m, step l = some m → m.whole = l.whole) {c : Node}
    (hc : (n.place.bind step).map n.atPlace = some c) : c.IsOf t := by
  obtain ⟨m, hm, rfl⟩ := Option.map_eq_some_iff.1 hc
  obtain ⟨l, hl, hlm⟩ := Option.bind_eq_some_iff.1 hm
  exact h.atPlace ((hstep l m hlm).trans (h.2 l hl))

theorem go (h : n.IsOf t) {way : Way} {c : Node} (hc : n.go way = some c) : c.IsOf t := by
  cases way with
  | parent => exact h.neighbour (fun _ _ => Location.whole_parent?) hc
  | nextSibling =>
    exact h.neighbour
      (fun _ _ hm => Location.whole_of_mem_nextSiblings (List.mem_of_head? hm)) hc
  | prevSibling =>
    exact h.neighbour
      (fun _ _ hm => Location.whole_of_mem_prevSiblings (List.mem_of_head? hm)) hc
  | nextNamedSibling =>
    exact h.neighbour
      (fun _ _ hm => Location.whole_of_mem_nextSiblings (List.mem_of_find?_eq_some hm)) hc
  | prevNamedSibling =>
    exact h.neighbour
      (fun _ _ hm => Location.whole_of_mem_prevSiblings (List.mem_of_find?_eq_some hm)) hc

end IsOf

end Node

/-! ### Cursors -/

namespace Cursor

/-- The cursor walks below a place of the tree. -/
structure IsOf (t : Tree) (c : Cursor) : Prop where
  tree_eq : c.tree = t
  origin_whole : c.origin.whole = t.shape
  here_whole : c.here.whole = c.origin.focus

variable {t : Tree} {c : Cursor}

theorem isOf_start {origin : Location} (h : origin.whole = t.shape) : (start t origin).IsOf t :=
  ⟨rfl, h, rfl⟩

namespace IsOf

theorem walksBelow (h : c.IsOf t) : c.WalksBelow t c.origin := ⟨h.tree_eq, rfl, h.here_whole⟩

/-- The cursor at any place with the same tree around it. -/
theorem at_here (h : c.IsOf t) {l : Location} (hl : l.whole = c.here.whole) :
    ({ c with here := l } : Cursor).IsOf t :=
  ⟨h.tree_eq, h.origin_whole, hl.trans h.here_whole⟩

theorem node (h : c.IsOf t) : c.node.IsOf t := by
  refine ⟨h.tree_eq, ?_⟩
  intro l hl
  obtain rfl := Option.some.inj hl
  rw [Location.whole_within, h.here_whole]
  exact h.origin_whole

theorem go (h : c.IsOf t) (m : Move) : (c.go m).1.IsOf t := by
  have hgo := h.walksBelow.go m
  have horigin := hgo.origin_eq
  exact ⟨hgo.tree_eq, horigin ▸ h.origin_whole, horigin ▸ hgo.whole_eq⟩

theorem of_mem_preorder (h : c.IsOf t) {n : Node} (hn : n ∈ c.preorder.1) : n.IsOf t := by
  rw [h.walksBelow.preorder_eq] at hn
  obtain ⟨l, hl, rfl⟩ := List.mem_map.1 hn
  have hnode := (h.at_here (Location.whole_of_mem_remaining hl)).node
  rwa [(h.at_here (Location.whole_of_mem_remaining hl)).walksBelow.node_eq] at hnode

theorem preorder (h : c.IsOf t) : c.preorder.2.IsOf t := by
  rw [h.walksBelow.preorder_eq]
  exact isOf_start h.origin_whole

theorem outline? (h : c.IsOf t) {text : String} {after : Cursor}
    (ho : c.outline? = some (text, after)) : after.IsOf t := by
  obtain ⟨⟨written, last⟩, hlines, heq⟩ := Option.map_eq_some_iff.1 ho
  obtain ⟨rfl, rfl⟩ := Prod.mk.inj heq
  exact h.at_here (Outline.whole_lines hlines)

end IsOf

theorem isOf_ofNode {n : Node} (h : n.IsOf t) (hc : ofNode n = .ok c) : c.IsOf t := by
  obtain ⟨l, hn, rfl⟩ := ofNode_eq_ok hc
  rw [h.1]
  exact isOf_start (h.2 l (by rw [hn]))

/-- A cursor is put only on nodes of a tree of the same number. -/
theorem tree_id_of_reset {n : Node} {after : Cursor} (hc : c.reset n = .ok after) :
    n.tree.id = c.tree.id := by
  unfold reset at hc
  split_ifs at hc with hid
  exact not_not.1 hid

theorem isOf_reset {n : Node} {after : Cursor} (h : n.IsOf c.tree) (hc : c.reset n = .ok after) :
    after.IsOf c.tree := by
  unfold reset at hc
  split_ifs at hc with hid
  cases hplace : n.place with
  | none => simp [hplace] at hc
  | some l =>
    obtain rfl : start c.tree l = after := by simpa [hplace] using hc
    exact isOf_start (h.2 l hplace)

/-- A cursor is never on the null node. -/
@[simp]
theorem isNull_node (c : Cursor) : c.node.isNull = false := rfl

theorem isOf_ofTree (t : Tree) : (ofTree t).IsOf t := isOf_start rfl

end Cursor

/-! ### Descendants -/

namespace Descendants

/-- What is left to be handed out comes from a cursor of the tree. -/
def IsOf (t : Tree) (d : Descendants) : Prop := ∀ c, d.cursor = some c → c.IsOf t

theorem isOf_next {t : Tree} {d rest : Descendants} {n : Node} (h : d.IsOf t)
    (hnext : d.next = (some n, rest)) : n.IsOf t ∧ rest.IsOf t := by
  unfold next at hnext
  split at hnext
  · cases hnext
  · split at hnext
    · cases hnext
    · next c hc =>
      -- the node is the one the cursor is on; the cursor goes on, or back to its origin
      split at hnext <;> obtain ⟨hn, rfl⟩ := Prod.mk.inj hnext <;> obtain rfl := Option.some.inj hn
      · refine ⟨(h c hc).node, ?_⟩
        rintro c' ⟨⟩
        exact (h c hc).at_here (Location.whole_advance ‹_›)
      · refine ⟨(h c hc).node, ?_⟩
        rintro c' ⟨⟩
        exact (h c hc).at_here (Location.whole_advance_end ‹_›)

theorem isOf_of_mem_take {t : Tree} {d : Descendants} {count : Nat} {n : Node} (h : d.IsOf t)
    (hn : n ∈ d.take count) : n.IsOf t := by
  induction count generalizing d with
  | zero => simp [take] at hn
  | succ count ih =>
    rw [take] at hn
    split at hn
    · next m rest hnext =>
      obtain ⟨hm, hrest⟩ := isOf_next h hnext
      rcases List.mem_cons.1 hn with rfl | hn
      · exact hm
      · exact ih hrest hn
    · simp at hn

end Descendants

theorem Node.IsOf.of_mem_descendants {t : Tree} {n d : Node} (h : n.IsOf t)
    (hd : d ∈ n.descendants) : d.IsOf t := by
  unfold descendants at hd
  split at hd
  · simp at hd
  · refine Descendants.isOf_of_mem_take ?_ hd
    intro c hc
    refine Cursor.isOf_ofNode h ?_
    cases hof : Cursor.ofNode n with
    | error fault => simp [Descendants.ofNode, hof, Except.toOption] at hc
    | ok c' =>
      obtain rfl : c' = c := by simpa [Descendants.ofNode, hof, Except.toOption] using hc
      rfl

/-! ### Matches -/

namespace QueryMatch

/-- The nodes of a match, in the order of its captures. -/
def nodes (m : QueryMatch) : List Node := m.captures.map (·.2)

theorem isOf_of_mem_ofFound {t : Tree} {captures : List String} {found : Nat × List (Nat × Nat)}
    {n : Node} (h : n ∈ (ofFound captures t found).nodes) : n.IsOf t := by
  simp only [nodes, ofFound, List.map_map, List.mem_map, Function.comp] at h
  obtain ⟨⟨name, index⟩, -, rfl⟩ := h
  exact Node.isOf_ofIndex t (some index)

end QueryMatch

namespace QueryCursor

/-- The query cursor runs below a node of the tree, which is of the language of its query. -/
structure IsOf (t : Tree) (c : QueryCursor) : Prop where
  node : c.node.IsOf t
  not_null : c.node.isNull = false
  language_eq : c.query.language = t.language

variable {t : Tree} {c : QueryCursor} {n : Node}

/-- The checks with which a query cursor starts are what makes it one of the tree. -/
theorem isOf_start {q : Query} (h : n.IsOf t) (hc : start q n = .ok c) : c.IsOf t := by
  unfold start at hc
  split_ifs at hc with hnull hlanguage
  cases hc
  obtain rfl := h.1
  exact ⟨h, by simpa using hnull, by simpa using hlanguage⟩

namespace IsOf

theorem setByteRange (h : c.IsOf t) {start stop : Nat} {after : QueryCursor}
    (hc : c.setByteRange start stop = .ok after) : after.IsOf t := by
  unfold QueryCursor.setByteRange at hc
  split_ifs at hc
  cases hc
  exact ⟨h.node, h.not_null, h.language_eq⟩

theorem setMatchLimit (h : c.IsOf t) (limit : Nat) : (c.setMatchLimit limit).IsOf t :=
  ⟨h.node, h.not_null, h.language_eq⟩

theorem execute (h : c.IsOf t) (engine : Option (Nat × Nat) → Option Nat → QueryRun) :
    (c.execute engine).2.IsOf t :=
  ⟨h.node, h.not_null, h.language_eq⟩

theorem of_mem_execute (h : c.IsOf t) {engine : Option (Nat × Nat) → Option Nat → QueryRun}
    {m : QueryMatch} (hm : m ∈ (c.execute engine).1) (hn : n ∈ m.nodes) : n.IsOf t := by
  obtain ⟨found, -, rfl⟩ := List.mem_map.1 hm
  rw [h.node.1] at hn
  exact QueryMatch.isOf_of_mem_ofFound hn

/-- Past the last match there are no nodes. -/
theorem of_mem_execute_getElem? (h : c.IsOf t)
    (engine : Option (Nat × Nat) → Option Nat → QueryRun) {k : Nat}
    (hn : n ∈ ((c.execute engine).1[k]?.map QueryMatch.nodes).getD []) : n.IsOf t := by
  cases hk : (c.execute engine).1[k]? with
  | none => simp [hk] at hn
  | some m =>
    have hm : n ∈ m.nodes := by simpa [hk] using hn
    exact h.of_mem_execute (List.mem_of_getElem? hk) hm

end IsOf

end QueryCursor

theorem Node.IsOf.of_mem_findAll {t : Tree} {n d : Node} (h : n.IsOf t) {q : Query}
    {engine : Option (Nat × Nat) → Option Nat → QueryRun} {found : List QueryMatch}
    (hfound : q.findAll n engine = .ok found) {m : QueryMatch} (hm : m ∈ found)
    (hd : d ∈ m.nodes) : d.IsOf t := by
  unfold Query.findAll at hfound
  cases hc : QueryCursor.start q n with
  | error fault => simp [hc, bind, Except.bind] at hfound
  | ok c =>
    obtain rfl : (c.execute engine).1 = found := by
      simpa [hc, bind, Except.bind, pure, Except.pure] using hfound
    exact (QueryCursor.isOf_start h hc).of_mem_execute hm hd

end SyntaxView
