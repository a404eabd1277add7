import SyntaxView.Syntax.Location
import Mathlib.Data.List.Nodup

/-!
# Pre-order by moves is pre-order by recursion

A walk with three moves (`Location.traverse`) comes to the present node and then to every node
that follows it in the recursive pre-order of the whole tree, and ends at the root.

* `preorder_eq_cons`: the recursion, node by node: a node, then its children one after the other.
* `nodup_paths_preorder`: no place occurs twice in a pre-order.
* `remaining` is the invariant of the walk: what the recursion has still to list when it comes to
  a location.  `exists_preorder_eq_append`: it is an end piece of the pre-order of the whole tree.
* `advance_spec` is the step, `traverse_eq` the run: a step forward takes one location off
  `remaining`, and the walk stops where only one is left.

The climb is the one place where `remaining` is not read off the next move at once: it starts at
a node without a next sibling, and going up from such a node loses nothing (`following_parent?`).
-/

namespace SyntaxView.Location

/-! ### The recursion, child by child -/

theorem preorderFrom_eq_cons (trail : List Frame) (t : Syntax) :
    preorderFrom trail t = ⟨t, trail⟩ :: preorderAcross trail t.label [] t.children := by
  cases t
  rw [preorderFrom, Syntax.label, Syntax.children]

theorem preorderAcross_eq_flatMap (trail : List Frame) (label : Label) (before ts : List Syntax) :
    preorderAcross trail label before ts
      = (rightward label trail before ts).flatMap preorder := by
  induction ts generalizing before with
  | nil => rw [preorderAcross, rightward, List.flatMap_nil]
  | cons t ts ih => rw [preorderAcross, rightward, List.flatMap_cons, ih, preorder]

/-- **The recursion**: a node comes first, then each of its children with what is below it. -/
theorem preorder_eq_cons (l : Location) : l.preorder = l :: l.children.flatMap preorder := by
  rw [preorder, preorderFrom_eq_cons, preorderAcross_eq_flatMap, children]

/-- The last of several sibling trees are listed last. -/
theorem exists_preorderAcross_append (trail : List Frame) (label : Label)
    (before ts us : List Syntax) :
    ∃ earlier, preorderAcross trail label before (ts ++ us)
      = earlier ++ preorderAcross trail label (ts.reverse ++ before) us := by
  induction ts generalizing before with
  | nil => exact ⟨[], rfl⟩
  | cons t ts ih =>
    obtain ⟨earlier, h⟩ := ih (t :: before)
    refine ⟨preorderFrom (⟨label, before, ts ++ us⟩ :: trail) t ++ earlier, ?_⟩
    rw [List.cons_append, preorderAcross, h, List.append_assoc, List.reverse_cons,
      List.append_assoc, List.singleton_append]

/-! ### Paths -/

mutual

theorem path_suffix_of_mem_preorderFrom (trail : List Frame) : ∀ (t : Syntax) (m : Location),
    m ∈ preorderFrom trail t → trail.map (·.before.length) <:+ m.path
  | .node label ts, m, h => by
    rw [preorderFrom, List.mem_cons] at h
    rcases h with rfl | h
    · exact List.suffix_refl _
    · obtain ⟨i, -, hi⟩ := path_suffix_of_mem_preorderAcross trail label [] ts m h
      exact (List.suffix_cons i _).trans hi

/-- Below one parent, the path of a node goes through a child that is not to the left. -/
theorem path_suffix_of_mem_preorderAcross (trail : List Frame) (label : Label)
    (before : List Syntax) : ∀ (ts : List Syntax) (m : Location),
    m ∈ preorderAcross trail label before ts →
      ∃ i, before.length ≤ i ∧ (i :: trail.map (·.before.length)) <:+ m.path
  | [], m, h => by
    rw [preorderAcross] at h
    exact absurd h List.not_mem_nil
  | t :: ts, m, h => by
    rw [preorderAcross, List.mem_append] at h
    rcases h with h | h
    · have := path_suffix_of_mem_preorderFrom (⟨label, before, ts⟩ :: trail) t m h
      exact ⟨before.length, Nat.le_refl _, this⟩
    · obtain ⟨i, hi, hm⟩ := path_suffix_of_mem_preorderAcross trail label (t :: before) ts m h
      exact ⟨i, Nat.le_of_succ_le hi, hm⟩

end

/-- Two paths through one parent that end alike go through the same child. -/
theorem index_eq_of_suffix {i j : Nat} {above path : List Nat} (hi : (i :: above) <:+ path)
    (hj : (j :: above) <:+ path) : i = j := by
  have h := List.suffix_of_suffix_length_le hi hj (by simp)
  have h' := h.eq_of_length (by simp)
  exact (List.cons.inj h').1

mutual

theorem nodup_paths_preorderFrom (trail : List Frame) : ∀ t : Syntax,
    ((preorderFrom trail t).map path).Nodup
  | .node label ts => by
    rw [preorderFrom, List.map_cons, List.nodup_cons]
    refine ⟨?_, nodup_paths_preorderAcross trail label [] ts⟩
    -- every other path is longer than that of the node itself
    intro h
    obtain ⟨m, hm, hpath⟩ := List.mem_map.mp h
    obtain ⟨i, -, hi⟩ := path_suffix_of_mem_preorderAcross trail label [] ts m hm
    have hlen := hi.length_le
    rw [hpath] at hlen
    simp only [path, List.length_cons, List.length_map] at hlen
    omega

theorem nodup_paths_preorderAcross (trail : List Frame) (label : Label)
    (before : List Syntax) : ∀ ts : List Syntax,
    ((preorderAcross trail label before ts).map path).Nodup
  | [] => by
    rw [preorderAcross]
    exact List.nodup_nil
  | t :: ts => by
    rw [preorderAcross, List.map_append, List.nodup_append]
    refine ⟨nodup_paths_preorderFrom _ t, nodup_paths_preorderAcross _ _ _ ts, ?_⟩
    -- a path below `t` and one to its right go through different children
    intro p hp q hq hpq
    obtain ⟨m, hm, rfl⟩ := List.mem_map.mp hp
    obtain ⟨m', hm', rfl⟩ := List.mem_map.mp hq
    have h := path_suffix_of_mem_preorderFrom _ t m hm
    obtain ⟨i, hi, h'⟩ := path_suffix_of_mem_preorderAcross _ _ _ ts m' hm'
    rw [hpq] at h
    have : before.length = i := index_eq_of_suffix h h'
    rw [List.length_cons] at hi
    omega

end

/-- No place occurs twice in a pre-order. -/
theorem nodup_paths_preorder (l : Location) : (l.preorder.map path).Nodup :=
  nodup_paths_preorderFrom l.trail l.focus

/-! ### Where a move leads -/

theorem firstChild?_eq_some {l m : Location} (h : l.firstChild? = some m) :
    ∃ label t ts, l = ⟨.node label (t :: ts), l.trail⟩ ∧ m = ⟨t, ⟨label, [], ts⟩ :: l.trail⟩ := by
  obtain ⟨⟨label, _ | ⟨t, ts⟩⟩, trail⟩ := l
  · simp [firstChild?] at h
  · exact ⟨label, t, ts, rfl, (Option.some.inj h).symm⟩

theorem nextSibling?_eq_some {l m : Location} (h : l.nextSibling? = some m) :
    ∃ label before u us above, l = ⟨l.focus, ⟨label, before, u :: us⟩ :: above⟩ ∧
      m = ⟨u, ⟨label, l.focus :: before, us⟩ :: above⟩ := by
  obtain ⟨t, _ | ⟨⟨label, before, _ | ⟨u, us⟩⟩, above⟩⟩ := l
  · simp [nextSibling?] at h
  · simp [nextSibling?] at h
  · exact ⟨label, before, u, us, above, rfl, (Option.some.inj h).symm⟩

theorem parent?_eq_some {l p : Location} (h : l.parent? = some p) :
    ∃ f above, l = ⟨l.focus, f :: above⟩ ∧ p = ⟨f.plug l.focus, above⟩ := by
  obtain ⟨t, _ | ⟨f, above⟩⟩ := l
  · simp [parent?] at h
  · exact ⟨f, above, rfl, (Option.some.inj h).symm⟩

/-! ### The tree around a location -/

/-- The whole tree of a location: the node in focus put back into its parent, and so on up. -/
def whole (l : Location) : Syntax := l.trail.foldl (fun t f => f.plug t) l.focus

theorem whole_firstChild? {l m : Location} (h : l.firstChild? = some m) : m.whole = l.whole := by
  obtain ⟨label, t, ts, hl, rfl⟩ := firstChild?_eq_some h
  rw [hl]
  rfl

theorem whole_nextSibling? {l m : Location} (h : l.nextSibling? = some m) :
    m.whole = l.whole := by
  obtain ⟨label, before, u, us, above, hl, rfl⟩ := nextSibling?_eq_some h
  rw [hl]
  simp [whole, Frame.plug]

theorem whole_parent? {l p : Location} (h : l.parent? = some p) : p.whole = l.whole := by
  obtain ⟨f, above, hl, rfl⟩ := parent?_eq_some h
  rw [hl]
  rfl

theorem eq_root_of_depth_eq_zero {l : Location} (h : l.depth = 0) : l = root l.whole := by
  obtain ⟨t, trail⟩ := l
  obtain rfl : trail = [] := List.eq_nil_of_length_eq_zero h
  rfl

theorem eq_root_of_parent?_eq_none {l : Location} (h : l.parent? = none) : l = root l.whole := by
  obtain ⟨t, _ | ⟨f, above⟩⟩ := l
  · rfl
  · simp [parent?] at h

/-! ### What is still to come -/

/-- What the recursion lists after the whole subtree `t`, reached by a trail. -/
def followingFrom (t : Syntax) : List Frame → List Location
  | [] => []
  | f :: above =>
    preorderAcross above f.label (t :: f.before) f.after ++ followingFrom (f.plug t) above

/-- What the recursion lists after the node and everything below it. -/
def following (l : Location) : List Location := followingFrom l.focus l.trail

/-- What the recursion has still to list when it comes to the node, the node included. -/
def remaining (l : Location) : List Location := l.preorder ++ l.following

theorem remaining_root (t : Syntax) : (root t).remaining = (root t).preorder :=
  List.append_nil _

theorem head?_remaining (l : Location) : l.remaining.head? = some l := by
  rw [remaining, preorder_eq_cons, List.cons_append, List.head?_cons]

/-- **The recursion comes to every location**, and `remaining` is what it lists from there. -/
theorem exists_preorder_eq_append (l : Location) :
    ∃ earlier, (root l.whole).preorder = earlier ++ l.remaining := by
  obtain ⟨t, trail⟩ := l
  induction trail generalizing t with
  | nil => exact ⟨[], (remaining_root t).symm⟩
  | cons f above ih =>
    -- the parent is listed; its children are those before `t`, `t`, and those after it
    obtain ⟨earlier, h⟩ := ih (f.plug t)
    obtain ⟨left, hleft⟩ :=
      exists_preorderAcross_append above f.label [] f.before.reverse (t :: f.after)
    rw [List.reverse_reverse, List.append_nil, preorderAcross] at hleft
    refine ⟨earlier ++ ⟨f.plug t, above⟩ :: left, ?_⟩
    show (root (whole ⟨f.plug t, above⟩)).preorder = _
    rw [h, remaining, preorder, preorderFrom_eq_cons]
    show earlier ++ (_ :: preorderAcross above f.label [] (f.before.reverse ++ t :: f.after)
      ++ followingFrom (f.plug t) above) = _
    rw [hleft, remaining, preorder, following, followingFrom]
    simp only [List.append_assoc, List.cons_append]

/-! ### One move -/

theorem remaining_firstChild? {l m : Location} (h : l.firstChild? = some m) :
    l.remaining = l :: m.remaining := by
  obtain ⟨label, t, ts, hl, rfl⟩ := firstChild?_eq_some h
  rw [hl]
  simp only [remaining, preorder, following, preorderFrom, preorderAcross, followingFrom,
    Frame.plug, List.reverse_nil, List.nil_append, List.cons_append, List.append_assoc]

theorem remaining_of_firstChild?_eq_none {l : Location} (h : l.firstChild? = none) :
    l.remaining = l :: l.following := by
  obtain ⟨⟨label, _ | ⟨t, ts⟩⟩, trail⟩ := l
  · rw [remaining, preorder, preorderFrom, preorderAcross, List.singleton_append]
  · simp [firstChild?] at h

theorem following_nextSibling? {l m : Location} (h : l.nextSibling? = some m) :
    l.following = m.remaining := by
  obtain ⟨label, before, u, us, above, hl, rfl⟩ := nextSibling?_eq_some h
  rw [hl]
  simp [remaining, preorder, following, preorderAcross, followingFrom, Frame.plug]

/-- Going up from a last child loses nothing of what follows. -/
theorem following_parent? {l p : Location} (hs : l.nextSibling? = none) (h : l.parent? = some p) :
    l.following = p.following := by
  obtain ⟨t, _ | ⟨⟨label, before, _ | ⟨u, us⟩⟩, above⟩⟩ := l
  · simp [parent?] at h
  · obtain rfl : _ = p := by simpa [parent?] using h
    rw [following, followingFrom, preorderAcross, List.nil_append, following]
  · simp [nextSibling?] at hs

/-! ### The climb, the step and the walk -/

/-- Where a walk through the tree `t` goes when `listed` is still to come: to a location from which
on just that remains, or back to the root if nothing is to come. -/
def GoesOn (t : Syntax) (listed : List Location) : Location ⊕ Location → Prop
  | .inl last => listed = [] ∧ last = root t
  | .inr m => listed = m.remaining ∧ m.whole = t

/-- **The climb** from a last child. -/
theorem climb_spec (l : Location) (hs : l.nextSibling? = none) :
    GoesOn l.whole l.following l.climb := by
  fun_induction climb l with
  | case1 l hp =>
    have hl := eq_root_of_parent?_eq_none hp
    refine ⟨?_, hl⟩
    rw [hl]
    rfl
  | case2 l p hp s hps =>
    rw [following_parent? hs hp, ← whole_parent? hp]
    exact ⟨following_nextSibling? hps, whole_nextSibling? hps⟩
  | case3 l p hp hps ih =>
    rw [following_parent? hs hp, ← whole_parent? hp]
    exact ih hps

/-- **The step**: a walk goes on with what comes after the present node. -/
theorem advance_spec (l : Location) :
    ∃ later, l.remaining = l :: later ∧ GoesOn l.whole later l.advance := by
  rw [advance]
  split
  · rename_i c hc
    exact ⟨c.remaining, remaining_firstChild? hc, rfl, whole_firstChild? hc⟩
  · rename_i hc
    refine ⟨l.following, remaining_of_firstChild?_eq_none hc, ?_⟩
    split
    · rename_i s hs
      exact ⟨following_nextSibling? hs, whole_nextSibling? hs⟩
    · rename_i hs
      exact climb_spec l hs

/-- **The walk**: it comes to everything that remains, in order, and ends at the root. -/
theorem traverse_eq (l : Location) : l.traverse = (l.remaining, root l.whole) := by
  fun_induction traverse l with
  | case1 l last h =>
    obtain ⟨later, hr, hg⟩ := advance_spec l
    rw [h] at hg
    rw [hr, hg.1, hg.2]
  | case2 l m h later ih =>
    obtain ⟨rest, hr, hg⟩ := advance_spec l
    rw [h] at hg
    rw [hr, hg.1, ← hg.2]
    simp only [later, ih]

/-! ### Locations inside a subtree -/

mutual

theorem preorderFrom_append (trail outer : List Frame) : ∀ t : Syntax,
    preorderFrom (trail ++ outer) t
      = (preorderFrom trail t).map fun l => ⟨l.focus, l.trail ++ outer⟩
  | .node label ts => by
    rw [preorderFrom, preorderFrom, preorderAcross_append_trail, List.map_cons]

theorem preorderAcross_append_trail (trail outer : List Frame) (label : Label)
    (before : List Syntax) : ∀ ts : List Syntax,
    preorderAcross (trail ++ outer) label before ts
      = (preorderAcross trail label before ts).map fun l => ⟨l.focus, l.trail ++ outer⟩
  | [] => by rw [preorderAcross, preorderAcross, List.map_nil]
  | t :: ts => by
    rw [preorderAcross, preorderAcross, List.map_append, ← List.cons_append,
      preorderFrom_append _ outer t, preorderAcross_append_trail trail outer label _ ts]

end

/-- The pre-order of a subtree is the same inside the tree around it. -/
theorem preorder_within (outer inner : Location) :
    (outer.within inner).preorder = inner.preorder.map outer.within :=
  preorderFrom_append inner.trail outer.trail inner.focus

end SyntaxView.Location
