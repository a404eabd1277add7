import SyntaxView.Proofs.CursorRoots

/-!
# Descendants one by one

The nodes of a subtree can be pulled out one at a time.  A pull sends the cursor on before it
answers with the node the cursor was on, so between two pulls the cursor is already at the node that
comes next.  After the last node there is none to go to: the cursor is back at its origin, where the
walk began, and only a flag tells this state from the first one.

`Descendants.left` reads off such a state what is still to be handed out, and is the invariant:

* `next_of_left_eq_cons`, `next_of_left_eq_nil` are the step: a pull takes the first node off
  `left`, and where nothing is left it changes nothing;
* `pull_eq` and `take_eq` are the run, for pulls that go on beyond the last node and for those that
  stop there.

At first `left` is the recursive pre-order of the node (`left_ofNode`), and
`Node.descendants_pulled` says what follows for every number of pulls.
-/

namespace SyntaxView

/-! ### The length of a pre-order -/

namespace Location

mutual

theorem length_preorderFrom (trail : List Frame) : ∀ t : Syntax,
    (preorderFrom trail t).length = t.size
  | .node label ts => by
    rw [preorderFrom, List.length_cons, length_preorderAcross trail label [] ts, Syntax.size]
    omega

theorem length_preorderAcross (trail : List Frame) (label : Label) (before : List Syntax) :
    ∀ ts : List Syntax, (preorderAcross trail label before ts).length = Syntax.sizeAll ts
  | [] => by rw [preorderAcross, List.length_nil, Syntax.sizeAll]
  | t :: ts => by
    rw [preorderAcross, List.length_append, length_preorderFrom _ t,
      length_preorderAcross trail label _ ts, Syntax.sizeAll]

end

end Location

/-! ### Places of a subtree -/

namespace Node

/-- From everything in a pre-order the way up leads to the node it is the pre-order of. -/
theorem exists_ancestor?_of_mem_preorder {n m : Node} (h : m ∈ n.preorder) :
    ∃ k, m.ancestor? k = some n := by
  obtain ⟨t, _ | origin⟩ := n
  · exact absurd h List.not_mem_nil
  · rw [Cursor.preorder_origin] at h
    obtain ⟨l, hl, rfl⟩ := List.mem_map.mp h
    have hwhole : l.whole = origin.focus := Location.whole_of_mem_preorder hl
    have hup := ancestor?_within t origin l
    rw [hwhole] at hup
    exact ⟨l.depth, hup⟩

end Node

namespace Descendants

/-! ### One pull -/

/-- What is still to be handed out: all that the walk of the cursor has still to come to, unless it
is over. -/
def left (d : Descendants) : List Node :=
  match d.cursor with
  | none => []
  | some c => if d.done then [] else c.here.remaining.map (Cursor.nodeAt c.tree c.origin)

/-- **The end**: where nothing is left a pull gives nothing and changes nothing. -/
theorem next_of_left_eq_nil {d : Descendants} (h : d.left = []) : d.next = (none, d) := by
  obtain ⟨_ | c, _ | _⟩ := d
  · rfl
  · rfl
  · -- a walk that is not over has at least the present node to come
    have hnil : c.here.remaining = [] := List.map_eq_nil_iff.mp h
    have hhead := c.here.head?_remaining
    rw [hnil] at hhead
    cases hhead
  · rfl

/-- **The step**: a pull gives the first of the nodes that are left and leaves the others. -/
theorem next_of_left_eq_cons {d : Descendants} {m : Node} {later : List Node}
    (h : d.left = m :: later) : ∃ rest, d.next = (some m, rest) ∧ rest.left = later := by
  obtain ⟨_ | c, _ | _⟩ := d
  · cases h
  · cases h
  · obtain ⟨ahead, hremaining, hgoes⟩ := c.here.advance_spec
    have hleft : Cursor.nodeAt c.tree c.origin c.here
        :: ahead.map (Cursor.nodeAt c.tree c.origin) = m :: later := by
      rw [← List.map_cons, ← hremaining]
      exact h
    obtain ⟨rfl, rfl⟩ := List.cons.inj hleft
    cases hadvance : c.here.advance with
    | inl last =>
      -- the cursor has climbed back to its origin: nothing was to come
      rw [hadvance] at hgoes
      refine ⟨⟨some { c with here := last }, true⟩, ?_, ?_⟩
      · simp only [next, hadvance]
        rfl
      · rw [hgoes.1]
        rfl
    | inr l =>
      rw [hadvance] at hgoes
      refine ⟨⟨some { c with here := l }, false⟩, ?_, ?_⟩
      · simp only [next, hadvance]
        rfl
      · rw [hgoes.1]
        rfl
  · cases h

/-! ### Any number of pulls -/

/-- The answers to a number of pulls, and what is left after them. -/
def pull (d : Descendants) : (count : Nat) → List (Option Node) × Descendants
  | 0 => ([], d)
  | count + 1 => (d.next.1 :: (d.next.2.pull count).1, (d.next.2.pull count).2)

/-- **The run**: the answers are the nodes that are left, and nothing for each pull beyond them. -/
theorem pull_eq (d : Descendants) (count : Nat) :
    (d.pull count).1
      = (d.left.take count).map some ++ List.replicate (count - d.left.length) none ∧
    (d.pull count).2.left = d.left.drop count := by
  induction count generalizing d with
  | zero =>
    rw [Nat.zero_sub]
    exact ⟨rfl, rfl⟩
  | succ count ih =>
    unfold pull
    cases hleft : d.left with
    | nil =>
      obtain ⟨hanswers, hafter⟩ := ih d
      rw [hleft] at hanswers hafter
      rw [next_of_left_eq_nil hleft]
      refine ⟨?_, hafter.trans List.drop_nil⟩
      rw [hanswers, List.take_nil, List.take_nil]
      rfl
    | cons m later =>
      obtain ⟨rest, hnext, hrest⟩ := next_of_left_eq_cons hleft
      obtain ⟨hanswers, hafter⟩ := ih rest
      rw [hrest] at hanswers hafter
      rw [hnext]
      refine ⟨?_, hafter⟩
      rw [hanswers, List.length_cons, Nat.add_sub_add_right]
      rfl

/-- Pulls that stop at the first one without a node give the nodes that are left. -/
theorem take_eq (d : Descendants) (count : Nat) : d.take count = d.left.take count := by
  induction count generalizing d with
  | zero => rfl
  | succ count ih =>
    unfold take
    cases hleft : d.left with
    | nil => rw [next_of_left_eq_nil hleft, List.take_nil]
    | cons m later =>
      obtain ⟨rest, hnext, hrest⟩ := next_of_left_eq_cons hleft
      rw [hnext, List.take_succ_cons, ← hrest, ← ih rest]

/-! ### From the beginning -/

/-- At first the whole subtree is left, in pre-order. -/
theorem left_ofNode (n : Node) : (ofNode n).left = n.preorder := by
  obtain ⟨t, _ | origin⟩ := n
  · rfl
  · rw [Cursor.preorder_origin, ← Location.remaining_root]
    rfl

end Descendants

namespace Node

/-- All that can be pulled out is the pre-order of the node. -/
theorem descendants_eq_preorder (n : Node) : n.descendants = n.preorder := by
  obtain ⟨t, _ | l⟩ := n
  · rfl
  · have hlength : (⟨t, some l⟩ : Node).preorder.length = l.focus.size := by
      rw [← Location.length_preorderFrom l.trail]
      exact List.length_map _
    show (Descendants.ofNode ⟨t, some l⟩).take l.focus.size = _
    rw [Descendants.take_eq, Descendants.left_ofNode, ← hlength, List.take_length]

/-- A new cursor at a node traverses the pre-order of the node; there is none at the null node. -/
theorem map_preorder_ofNode (n : Node) :
    (Cursor.ofNode n).map (·.preorder.1)
      = if n.isNull then .error (.badState .cursorOnNull) else .ok n.preorder := by
  obtain ⟨t, _ | l⟩ := n
  · rfl
  · show Except.ok (Cursor.start t l).preorder.1 = Except.ok _
    rw [(Cursor.walksBelow_start t l).preorder_eq, Cursor.preorder_origin,
      ← Location.remaining_root]
    rfl

/-- **Descendants are pulled out in pre-order.**  The answers to any number of pulls are that many
nodes of the pre-order of the node, from its start, and nothing for every pull after the last of
them; at the null node every pull gives nothing.

* The pre-order is the recursive one: the node itself, then each of its children with what is below
  it, every node once.
* Whatever is handed out lies in the subtree: the way up from it leads to the node.
* All descendants together are what a traversal by a new cursor at the node comes to. -/
theorem descendants_pulled (n : Node) :
    (∀ count, ((Descendants.ofNode n).pull count).1
      = (n.preorder.take count).map some ++ List.replicate (count - n.preorder.length) none) ∧
    (∀ count, ((Descendants.ofNode (null n.tree)).pull count).1 = List.replicate count none) ∧
    n.preorder = (if n.isNull then [] else n :: n.children.flatMap preorder) ∧
    n.preorder.Pairwise (fun a b => a.same b = false) ∧
    (∀ count m, some m ∈ ((Descendants.ofNode n).pull count).1 → ∃ k, m.ancestor? k = some n) ∧
    n.descendants = n.preorder ∧
    (Cursor.ofNode n).map (·.preorder.1)
      = if n.isNull then .error (.badState .cursorOnNull) else .ok n.descendants := by
  have hpull : ∀ (n : Node) count, ((Descendants.ofNode n).pull count).1
      = (n.preorder.take count).map some ++ List.replicate (count - n.preorder.length) none := by
    intro n count
    rw [((Descendants.ofNode n).pull_eq count).1, Descendants.left_ofNode]
  refine ⟨hpull n, ?_, ?_, n.pairwise_preorder, ?_, n.descendants_eq_preorder, ?_⟩
  · intro count
    rw [hpull, show (null n.tree).preorder = [] from rfl, List.take_nil]
    rfl
  · cases hnull : n.isNull with
    | true =>
      obtain ⟨t, _ | l⟩ := n
      · rfl
      · cases hnull
    | false => exact n.preorder_eq_cons hnull
  · intro count m hm
    rw [hpull, List.mem_append] at hm
    rcases hm with hm | hm
    · -- an answer that is a node is one of the pre-order
      obtain ⟨m', hm', heq⟩ := List.mem_map.mp hm
      obtain rfl := Option.some.inj heq
      exact exists_ancestor?_of_mem_preorder (List.mem_of_mem_take hm')
    · cases List.eq_of_mem_replicate hm
  · rw [n.descendants_eq_preorder, n.map_preorder_ofNode]

/-- The sum of the small tree, which has a semicolon after it: six pulls give its four nodes and
then nothing twice, and each of the four is below the sum. -/
theorem descendants_pulled_sum :
    let n : Node := ⟨Sample.tree, some Sample.sumPlace⟩
    let answers := ((Descendants.ofNode n).pull 6).1
    answers.map (·.bind kind?) = [some "sum", some "name", some "+", some "name", none, none] ∧
    (∀ m, some m ∈ answers → ∃ k, m.ancestor? k = some n) ∧
    (Cursor.ofNode n).map (·.preorder.1) = .ok n.descendants := by
  intro n answers
  obtain ⟨hanswers, -, -, -, hbelow, -, hwalk⟩ := n.descendants_pulled
  refine ⟨?_, hbelow 6, hwalk⟩
  show List.map _ ((Descendants.ofNode n).pull 6).1 = _
  rw [hanswers 6]
  decide +kernel

end Node

end SyntaxView
