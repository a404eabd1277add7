import SyntaxView.Proofs.CharacterCodings
import SyntaxView.Proofs.PatternPredicates

/-!
# The patterns of a query tile its text

A query is cut into patterns at byte offsets, and each pattern then loses the white space at its
end, which may take one, two or three bytes a character.  The end of a pattern is not kept but
computed again from what is left of it.

`Pattern.Tiles` says how the patterns lie in the text: one after the other, with nothing but white
space after each.  It goes along the list of patterns and keeps the byte offset at which the rest
of the text starts, so that offsets and characters are compared once, at each cut
(`exists_cut_eq`).  `tiles_split` is the run over the table.

All else is read off `Tiles`, in bytes and in characters (`Query.patternsAt_tile`).
-/

namespace SyntaxView

open Text

namespace Text

/-- What is trimmed does not end in white space. -/
theorem isWhiteSpace_of_getLast?_trimEnd {s : List Char} {c : Char}
    (h : c ∈ (trimEnd s).getLast?) : isWhiteSpace c = false := by
  have hhead := List.head?_dropWhile_not isWhiteSpace s.reverse
  rw [trimEnd, List.getLast?_reverse] at h
  rw [Option.mem_def.mp h] at hhead
  exact hhead

/-- The bytes of a piece of a text are cut out by the sizes of what is before it and of itself. -/
theorem Utf8.extract_encode (u v w : List Char) :
    (encode (u ++ (v ++ w))).extract (size u) (size u + size v) = encode v := by
  have happend : ∀ s t : List Char, encode (s ++ t) = encode s ++ encode t :=
    fun _ _ => List.flatMap_append
  rw [happend, happend, List.extract_eq_take_drop, Nat.add_sub_cancel_left, ← length_encode u,
    ← length_encode v, List.drop_left, List.take_left]

end Text

namespace Pattern

/-! ### One cut -/

/-- What the engine promises of a table: the offsets at which the patterns start do not go back, and
each lies on the boundary of a character, so that none is beyond the text. -/
structure StartsInOrder (source : List Char) (table : List PatternEntry) : Prop where
  ordered : table.Pairwise fun a b => a.start ≤ b.start
  boundary : ∀ entry ∈ table, Utf8.IsBoundary entry.start source

section

variable {source : List Char} {entry : PatternEntry} {later : List PatternEntry}

theorem StartsInOrder.tail (h : StartsInOrder source (entry :: later)) :
    StartsInOrder source later :=
  ⟨h.ordered.of_cons, fun e he => h.boundary e (List.mem_cons_of_mem entry he)⟩

/-- A pattern ends at a boundary that is not before its start. -/
theorem StartsInOrder.stopOffset (h : StartsInOrder source (entry :: later)) :
    Utf8.IsBoundary (stopOffset source later) source ∧
      entry.start ≤ Pattern.stopOffset source later := by
  cases later with
  | nil => exact ⟨Utf8.isBoundary_size source, (h.boundary entry List.mem_cons_self).le_size⟩
  | cons next later =>
    have hnext : next ∈ next :: later := List.mem_cons_self
    exact ⟨h.tail.boundary next hnext, List.rel_of_pairwise_cons h.ordered hnext⟩

end

/-- **The cut**: between two boundaries there is the text of the pattern and then white space. -/
theorem exists_cut_eq {head text : List Char} {stop : Nat}
    (hstop : Utf8.IsBoundary stop (head ++ text)) (hle : Utf8.size head ≤ stop) :
    ∃ value blank rest, cut (head ++ text) (Utf8.size head) stop = value ∧
      (∀ c ∈ value.getLast?, isWhiteSpace c = false) ∧ blank.all isWhiteSpace = true ∧
      text = value ++ (blank ++ rest) ∧ Utf8.size (head ++ (value ++ blank)) = stop := by
  obtain ⟨u, v, rest, hsplit, hu, rfl⟩ := Utf8.exists_split ⟨head, text, rfl, rfl⟩ hstop hle
  -- the split has the same front, since its front has the same number of bytes
  have htext : text = v ++ rest := by
    have hdrop := Utf8.drop?_append head text
    rw [hsplit, ← hu, Utf8.drop?_append] at hdrop
    exact (Option.some.inj hdrop).symm
  have hcut : cut (head ++ text) (Utf8.size head) (Utf8.size u + Utf8.size v) = trimEnd v := by
    rw [cut, hsplit, ← hu, Utf8.slice?_append]
    rfl
  obtain ⟨blank, hblank, hv⟩ := PredicateText.exists_trimEnd_append v
  refine ⟨trimEnd v, blank, rest, hcut, fun c => isWhiteSpace_of_getLast?_trimEnd, hblank, ?_, ?_⟩
  · rw [← List.append_assoc, ← hv, htext]
  · rw [← hv, Utf8.size_append, hu]

/-! ### All cuts -/

/-- `Tiles offset text patterns`: the text, which starts at the offset, is made up of these patterns
and white space after each. -/
inductive Tiles : (offset : Nat) → (text : List Char) → (patterns : List Pattern) → Prop where
  | nil {offset : Nat} : Tiles offset [] []
  | cons {p : Pattern} {ps : List Pattern} {offset : Nat} {text blank rest : List Char}
      (hstart : p.startOffset = offset) (htext : text = p.value.toList ++ (blank ++ rest))
      (hlast : ∀ c ∈ p.value.toList.getLast?, isWhiteSpace c = false)
      (hblank : blank.all isWhiteSpace = true)
      (h : Tiles (p.endOffset + Utf8.size blank) rest ps) : Tiles offset text (p :: ps)

/-- **The step**: the first pattern of a table, with the white space after it, is the text up to
where the next one starts. -/
theorem StartsInOrder.exists_first {head text : List Char} {entry : PatternEntry}
    {later : List PatternEntry} (h : StartsInOrder (head ++ text) (entry :: later))
    (hhead : Utf8.size head = entry.start) (index : Nat) :
    ∃ p blank rest, split (head ++ text) index (entry :: later)
        = p :: split (head ++ text) (index + 1) later ∧
      p.startOffset = entry.start ∧ (∀ c ∈ p.value.toList.getLast?, isWhiteSpace c = false) ∧
      blank.all isWhiteSpace = true ∧ text = p.value.toList ++ (blank ++ rest) ∧
      Utf8.size (head ++ (p.value.toList ++ blank)) = Pattern.stopOffset (head ++ text) later := by
  obtain ⟨p, hsplit, hstart, hp⟩ :
      ∃ p : Pattern, split (head ++ text) index (entry :: later)
          = p :: split (head ++ text) (index + 1) later ∧ p.startOffset = entry.start ∧
        p.value = .ofList
          (cut (head ++ text) entry.start (Pattern.stopOffset (head ++ text) later)) := by
    cases later with
    | nil => exact ⟨_, rfl, rfl, rfl⟩
    | cons next later => exact ⟨_, rfl, rfl, rfl⟩
  obtain ⟨hstop, hle⟩ := h.stopOffset
  rw [← hhead] at hle hp
  obtain ⟨value, blank, rest, hcut, hlast, hblank, htext, hsize⟩ := exists_cut_eq hstop hle
  have hvalue : p.value.toList = value := by rw [hp, hcut, String.toList_ofList]
  rw [← hvalue] at hlast htext hsize
  exact ⟨p, blank, rest, hsplit, hstart, hlast, hblank, htext, hsize⟩

/-- **The run**: the patterns of a table tile the text from the first of them on. -/
theorem tiles_split {head text : List Char} {entry : PatternEntry} {later : List PatternEntry}
    (h : StartsInOrder (head ++ text) (entry :: later)) (hhead : Utf8.size head = entry.start)
    (index : Nat) : Tiles entry.start text (split (head ++ text) index (entry :: later)) := by
  induction later generalizing head text entry index with
  | nil =>
    obtain ⟨p, blank, rest, hsplit, hstart, hlast, hblank, htext, hsize⟩ :=
      h.exists_first hhead index
    -- the last pattern goes up to the end of the text
    have hrest : rest = [] := by
      apply Utf8.eq_nil_of_size_eq_zero
      have hbytes := congrArg Utf8.size htext
      simp only [stopOffset, Utf8.size_append] at hsize hbytes
      omega
    subst hrest
    rw [hsplit]
    exact .cons hstart htext hlast hblank .nil
  | cons next later ih =>
    obtain ⟨p, blank, rest, hsplit, hstart, hlast, hblank, htext, hsize⟩ :=
      h.exists_first hhead index
    -- what comes before the next pattern: the head, the pattern and the white space after it
    have hsource : head ++ text = (head ++ (p.value.toList ++ blank)) ++ rest := by
      rw [List.append_assoc, List.append_assoc, ← htext]
    have hlater := ih (hsource ▸ h.tail) hsize (index + 1)
    have hnext : p.endOffset + Utf8.size blank = next.start := by
      rw [Utf8.size_append, Utf8.size_append] at hsize
      rw [endOffset, hstart, ← hhead, Nat.add_assoc]
      exact hsize
    rw [← hsource, ← hnext] at hlater
    rw [hsplit]
    exact .cons hstart htext hlast hblank hlater

namespace Tiles

variable {offset : Nat} {text : List Char} {ps : List Pattern}

/-- Each pattern stands in the text, at its offset. -/
theorem exists_append_of_mem (h : Tiles offset text ps) {p : Pattern} (hp : p ∈ ps) :
    ∃ u w, text = u ++ (p.value.toList ++ w) ∧ p.startOffset = offset + Utf8.size u := by
  induction h with
  | nil => cases hp
  | @cons first ps offset text blank rest hstart htext _ _ _ ih =>
    rcases List.mem_cons.mp hp with rfl | hp
    · exact ⟨[], blank ++ rest, htext, hstart⟩
    · obtain ⟨u, w, hrest, hoffset⟩ := ih hp
      refine ⟨first.value.toList ++ (blank ++ u), w, ?_, ?_⟩
      · rw [htext, hrest]
        simp only [List.append_assoc]
      · rw [hoffset, endOffset, hstart]
        simp only [Utf8.size_append]
        omega

theorem isWhiteSpace_of_mem (h : Tiles offset text ps) {p : Pattern} (hp : p ∈ ps) :
    ∀ c ∈ p.value.toList.getLast?, isWhiteSpace c = false := by
  induction h with
  | nil => cases hp
  | cons _ _ hlast _ _ ih =>
    rcases List.mem_cons.mp hp with rfl | hp
    · exact hlast
    · exact ih hp

/-- No pattern starts before an earlier one has ended. -/
theorem pairwise (h : Tiles offset text ps) :
    ps.Pairwise fun p p' => p.endOffset ≤ p'.startOffset := by
  induction h with
  | nil => exact List.Pairwise.nil
  | cons _ _ _ _ h ih =>
    refine List.pairwise_cons.mpr ⟨?_, ih⟩
    intro p' hp'
    obtain ⟨u, w, -, hoffset⟩ := h.exists_append_of_mem hp'
    omega

/-- The text is the patterns with the white space after each. -/
theorem exists_gaps (h : Tiles offset text ps) :
    ∃ gaps : List (List Char), gaps.length = ps.length ∧
      (∀ gap ∈ gaps, gap.all isWhiteSpace = true) ∧
      text = (List.zipWith (fun p gap => p.value.toList ++ gap) ps gaps).flatten := by
  induction h with
  | nil => exact ⟨[], rfl, fun _ hgap => absurd hgap List.not_mem_nil, rfl⟩
  | @cons p ps offset text blank rest _ htext _ hblank _ ih =>
    obtain ⟨gaps, hlength, hgaps, hrest⟩ := ih
    refine ⟨blank :: gaps, ?_, ?_, ?_⟩
    · rw [List.length_cons, List.length_cons, hlength]
    · intro gap hgap
      rcases List.mem_cons.mp hgap with rfl | hgap
      · exact hblank
      · exact hgaps gap hgap
    · rw [htext, List.zipWith_cons_cons, List.flatten_cons, List.append_assoc, ← hrest]

end Tiles

/-- Each row of the table is a pattern, in order. -/
theorem rows_split (source : List Char) (index : Nat) (table : List PatternEntry) :
    (split source index table).map (fun p => (p.index, p.startOffset, p.rooted, p.nonLocal))
      = (table.zipIdx index).map fun row => (row.2, row.1.start, row.1.rooted, row.1.nonLocal) := by
  induction table generalizing index with
  | nil => rfl
  | cons entry later ih =>
    cases later with
    | nil => rfl
    | cons next later => exact congrArg _ (ih (index + 1))

end Pattern

/-- **The patterns of a query tile its text**, whatever the text is, if the offsets of the table are
in order and lie on boundaries.

* There is one pattern for each row of the table, in order.
* The bytes of a pattern are those of the text from its start to its end, and it does not end in
  white space.
* A pattern ends before the next one starts, the last one before the text is over.
* From the start of the first pattern on, the text is the patterns and white space after each.  So
  nothing but white space is dropped, and nothing occurs in two patterns. -/
theorem Query.patternsAt_tile (q : Query) {table : List PatternEntry}
    (h : Pattern.StartsInOrder q.source.toList table) :
    (q.patternsAt table).map (fun p => (p.index, p.startOffset, p.rooted, p.nonLocal))
      = table.zipIdx.map (fun row => (row.2, row.1.start, row.1.rooted, row.1.nonLocal)) ∧
    (∀ p ∈ q.patternsAt table,
      (Utf8.encode q.source.toList).extract p.startOffset p.endOffset
        = Utf8.encode p.value.toList ∧
      (∀ c ∈ p.value.toList.getLast?, isWhiteSpace c = false) ∧
      p.endOffset ≤ Utf8.size q.source.toList) ∧
    (q.patternsAt table).Pairwise (fun p p' => p.endOffset ≤ p'.startOffset) ∧
    ∀ first ∈ table.head?, ∃ (head : List Char) (gaps : List (List Char)),
      Utf8.size head = first.start ∧ gaps.length = (q.patternsAt table).length ∧
      (∀ gap ∈ gaps, gap.all isWhiteSpace = true) ∧
      q.source.toList = head ++
        (List.zipWith (fun p gap => p.value.toList ++ gap) (q.patternsAt table) gaps).flatten := by
  refine ⟨Pattern.rows_split q.source.toList 0 table, ?_⟩
  cases table with
  | nil =>
    refine ⟨fun p hp => absurd hp List.not_mem_nil, List.Pairwise.nil, ?_⟩
    intro first hfirst
    cases hfirst
  | cons entry later =>
    obtain ⟨head, text, hsource, hhead⟩ := h.boundary entry List.mem_cons_self
    have htiles : Pattern.Tiles entry.start text (q.patternsAt (entry :: later)) := by
      rw [hsource] at h
      have hsplit := Pattern.tiles_split h hhead 0
      rwa [← hsource] at hsplit
    refine ⟨?_, htiles.pairwise, ?_⟩
    · intro p hp
      obtain ⟨u, w, htext, hoffset⟩ := htiles.exists_append_of_mem hp
      have hplace : q.source.toList = (head ++ u) ++ (p.value.toList ++ w) := by
        rw [hsource, htext, List.append_assoc]
      have hstart : p.startOffset = Utf8.size (head ++ u) := by
        rw [hoffset, Utf8.size_append, hhead]
      refine ⟨?_, htiles.isWhiteSpace_of_mem hp, ?_⟩
      · rw [Pattern.endOffset, hplace, hstart, Utf8.extract_encode]
      · rw [Pattern.endOffset, hplace, hstart]
        simp only [Utf8.size_append]
        omega
    · intro first hfirst
      obtain rfl : entry = first := Option.some.inj hfirst
      obtain ⟨gaps, hlength, hgaps, htext⟩ := htiles.exists_gaps
      exact ⟨head, gaps, hhead, hlength, hgaps, by rw [hsource, ← htext]⟩

/-- The first pattern comes after a comment, the second is empty since the third starts where it
does, and the white space after the first and the third takes one, two or three bytes. -/
theorem Query.patternsAt_tile_wide :
    let table : List PatternEntry := [⟨4, true, false⟩, ⟨11, false, true⟩, ⟨11, true, true⟩]
    let q : Query := ⟨1, .json, ";é\n(a) \u3000(é)\u0085\n", ⟨[], table⟩⟩
    Pattern.StartsInOrder q.source.toList table ∧
    (q.patternsAt table).map (fun p => (p.startOffset, p.endOffset, p.value))
      = [(4, 7, "(a)"), (11, 11, ""), (11, 15, "(é)")] ∧
    (q.patternsAt table).Pairwise (fun p p' => p.endOffset ≤ p'.startOffset) ∧
    ∃ (head : List Char) (gaps : List (List Char)),
      Utf8.size head = 4 ∧ gaps.length = 3 ∧ (∀ gap ∈ gaps, gap.all isWhiteSpace = true) ∧
      q.source.toList = head ++
        (List.zipWith (fun p gap => p.value.toList ++ gap) (q.patternsAt table) gaps).flatten := by
  intro table q
  have hstarts : Pattern.StartsInOrder q.source.toList table := ⟨by decide, by decide⟩
  obtain ⟨-, -, hends, hfirst⟩ := q.patternsAt_tile hstarts
  refine ⟨hstarts, by decide +kernel, hends, ?_⟩
  exact hfirst ⟨4, true, false⟩ rfl

end SyntaxView
