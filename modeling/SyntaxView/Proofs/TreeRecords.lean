import SyntaxView.Proofs.LiveHandles
import SyntaxView.Proofs.SourceText

/-!
# What trees keep

A tree has the language and the encoding of the parser that made it, for as long as it is there,
and its source is the text that was last given for it, in this encoding: `Session.trees_on_record`.

To say this a run keeps a record of each tree (`TreeRecord`): the parser, as it was when it made the
tree, and the text, which is the one that was parsed until an edit gives a new one.  A tree that is
made from another tree takes over the text of the other as it is then.  Records are written from
what commands say (`Ledger.note`); what is in the trees is not looked at.

The invariant is that every tree is as its record has it (`OnRecord`); `OnRecord.act` is the step
and `OnRecord.afterActions` the run.
-/

namespace SyntaxView

/-- The whole text of a source is the text that was encoded. -/
theorem Source.whole_encode (text : String) (e : Encoding) : (encode text e).whole = text := by
  have hzero : (encode "" e).nativeLength = 0 := by cases e <;> rfl
  have hparts := text_encode_append "" text "" e
  rw [String.empty_append, String.append_empty, hzero] at hparts
  exact hparts

/-- A parser makes a tree from another one just if it has a language, the encoding of the tree is
its own, and the engine does its part. -/
theorem Parser.exists_reparse_iff {p : Parser} {id : Nat} {old : Tree} {reply : Option Syntax} :
    (∃ t, p.reparse (fun _ _ _ => reply) id old = .ok t) ↔
      old.encoding = p.encoding ∧ p.language.isSome ∧ reply.isSome := by
  unfold reparse parseSource
  by_cases hencoding : old.encoding = p.encoding
  · cases p.language with
    | none => simp [hencoding]
    | some language =>
      cases reply with
      | none => simp [hencoding]
      | some shape => simp [hencoding]
  · simp [hencoding]

/-! ### Records -/

/-- What is on record of a tree. -/
structure TreeRecord where
  /-- The parser that made it, as it was then. -/
  maker : Parser
  /-- The text last given for it. -/
  text : String
  deriving Repr

/-- The tree is as the record has it. -/
structure TreeRecord.IsOf (t : Tree) (r : TreeRecord) : Prop where
  language_eq : r.maker.language = some t.language
  source_eq : t.source = .encode r.text r.maker.encoding

theorem TreeRecord.IsOf.encoding_eq {t : Tree} {r : TreeRecord} (h : r.IsOf t) :
    t.encoding = r.maker.encoding := by
  rw [Tree.encoding, h.source_eq, Source.encoding_encode]

theorem TreeRecord.IsOf.source_eq_encode {t : Tree} {r : TreeRecord} (h : r.IsOf t) :
    t.source = .encode r.text t.encoding := by
  rw [h.encoding_eq]
  exact h.source_eq

/-- The records of trees, by their numbers. -/
abbrev Ledger := Nat → Option TreeRecord

namespace Ledger

def empty : Ledger := fun _ => none

/-- The ledger with a new record for a tree. -/
def write (ledger : Ledger) (id : Nat) (record : Option TreeRecord) : Ledger :=
  fun k => if k = id then record else ledger k

theorem write_self (ledger : Ledger) (id : Nat) (record : Option TreeRecord) :
    ledger.write id record id = record :=
  if_pos rfl

theorem write_of_ne (ledger : Ledger) {id k : Nat} (record : Option TreeRecord) (h : k ≠ id) :
    ledger.write id record k = ledger k :=
  if_neg h

/-- The text that a command gives for the tree it makes. -/
def givenText? (ledger : Ledger) (s : Session) : ParserCommand → Option String
  | .parse _ text _ _ => some text
  | .parseFile _ path _ _ => (s.files.readText path).toOption
  | .reparse _ tree _ _ => (s.trees.get? tree).bind fun t => (ledger t.id).map (·.text)
  | _ => none

/-- The record of a tree that a command has made, which left the session `after`. -/
def newRecord? (ledger : Ledger) (s : Session) (c : ParserCommand) (after : Session) :
    Option TreeRecord := do
  let maker ← after.parsers.get? (← c.maker?)
  let text ← ledger.givenText? s c
  return ⟨maker, text⟩

/-- The ledger after an action: a new tree is put on record, and an edit gives a new text. -/
def note (ledger : Ledger) (s : Session) (o : Outcome) : Action → Ledger
  | .parser c =>
    match o.1.newTree? with
    | some t => ledger.write t.id (ledger.newRecord? s c o.2)
    | none => ledger
  | .tree (.edit h _ text _) =>
    match s.trees.get? h with
    | some t => ledger.write t.id ((ledger t.id).map fun r => { r with text := text })
    | none => ledger
  | _ => ledger

/-- The ledger after a number of actions. -/
def afterActions (compiler : QueryCompiler) : Ledger → Session → List Action → Ledger
  | ledger, _, [] => ledger
  | ledger, s, a :: actions =>
    afterActions compiler (ledger.note s (s.outcome compiler a) a) (s.act compiler a) actions

end Ledger

namespace Session

/-- The ledger after the first `count` actions of a run. -/
def records (compiler : QueryCompiler) (commands : List Command) (s : Session) (count : Nat) :
    Ledger :=
  Ledger.empty.afterActions compiler s ((course compiler commands s).take count)

/-! ### The invariant -/

/-- All trees are as the ledger has them. -/
def OnRecord (s : Session) (ledger : Ledger) : Prop :=
  ∀ h t, s.trees.get? h = some t → ∃ r, ledger t.id = some r ∧ r.IsOf t

variable {compiler : QueryCompiler} {s : Session} {ledger : Ledger}

@[simp]
theorem parsers_bindTree (s : Session) (h : Handle) (t : Tree) :
    (s.bindTree h t).parsers = s.parsers := by
  show (s.dropTree h).parsers = s.parsers
  unfold dropTree
  split <;> rfl

namespace OnRecord

theorem start (files : FileSystem) (check : LanguageCheck) (ledger : Ledger) :
    OnRecord (.start files check) ledger := by
  intro h t ht
  simp [Session.start, Bindings.get?, Bindings.empty] at ht

theorem of_trees_eq (hr : OnRecord s ledger) {s' : Session} (h : s'.trees = s.trees) :
    OnRecord s' ledger := by
  intro k t ht
  rw [h] at ht
  exact hr k t ht

/-- What a command gives a parser to parse is the text on record, in the encoding of the parser. -/
theorem exists_givenText? (hr : OnRecord s ledger) {p : Parser} {c : ParserCommand}
    {source : Source} (hsource : s.source? p c = some source) :
    ∃ text, ledger.givenText? s c = some text ∧ source = .encode text p.encoding := by
  cases c with
  | parse parser text h reply => exact ⟨text, rfl, (Option.some.inj hsource).symm⟩
  | parseFile parser path h reply =>
    obtain ⟨text, htext, hencode⟩ := Option.map_eq_some_iff.1 hsource
    exact ⟨text, htext, hencode.symm⟩
  | reparse parser tree h reply =>
    obtain ⟨old, hold, hsource⟩ := Option.bind_eq_some_iff.1 hsource
    split_ifs at hsource with hencoding
    cases hsource
    -- the encoding of the old tree is both that of its parser and that of the new one
    obtain ⟨r, hrecord, hof⟩ := hr tree old hold
    refine ⟨r.text, ?_, ?_⟩
    · rw [Ledger.givenText?, hold, Option.bind_some, hrecord]
      rfl
    · rw [← hencoding]
      exact hof.source_eq_encode
  | _ => cases hsource

theorem exists_newRecord? (hr : OnRecord s ledger) {c : ParserCommand} {t : Tree}
    {after : Session} (hmakes : Makes s after.parsers c t) :
    ∃ r, ledger.newRecord? s c after = some r ∧ r.IsOf t := by
  obtain ⟨h, p, hmaker, hp, hlanguage, hsource⟩ := hmakes.made
  obtain ⟨text, htext, hencode⟩ := hr.exists_givenText? hsource
  refine ⟨⟨p, text⟩, ?_, hlanguage, hencode⟩
  simp [Ledger.newRecord?, hmaker, hp, htext]

/-- A new tree goes on record, and those that are on record stay there. -/
theorem performParser (hs : Sound s) (hr : OnRecord s ledger) (c : ParserCommand) :
    OnRecord (s.performParser c).2 (ledger.note s (s.performParser c) (.parser c)) := by
  refine performParser_cases (P := fun o => OnRecord o.2 (ledger.note s o (.parser c))) c ?_ ?_
  · intro o ho hnone
    have hnote : ledger.note s o (.parser c) = ledger := by rw [Ledger.note, hnone]
    rw [hnote]
    exact hr.of_trees_eq ho.trees_eq
  · intro parsers lent h t hmakes
    let after := { s with
      parsers := parsers, lent := lent, treeCount := s.treeCount + 1 }.bindTree h t
    show OnRecord after (ledger.write t.id (ledger.newRecord? s c after))
    have hparsers : after.parsers = parsers := parsers_bindTree _ h t
    intro k u hu
    rw [get?_trees_bindTree] at hu
    split_ifs at hu with hk
    · obtain rfl := Option.some.inj hu
      rw [Ledger.write_self]
      exact hr.exists_newRecord? (hparsers ▸ hmakes)
    · -- the number of an old tree is not the new one
      have hne : u.id ≠ t.id := by
        have hle := hs.id_le k u hu
        have hid := hmakes.id_eq
        omega
      rw [Ledger.write_of_ne _ _ hne]
      exact hr k u hu

/-- An edit changes the text of one tree and its record alike. -/
theorem editTree (hs : Sound s) (hr : OnRecord s ledger) {h : Handle} {t : Tree}
    (ht : s.trees.get? h = some t) (edit : Edit) (text : String) (engine : Edit → Syntax) :
    OnRecord { s.forgetTree t.id with trees := s.trees.bind h (t.edit edit text engine) }
      (ledger.write t.id ((ledger t.id).map fun r => { r with text := text })) := by
  intro k u hu
  rw [Bindings.get?_bind] at hu
  split_ifs at hu with hk
  · obtain rfl := Option.some.inj hu
    obtain ⟨r, hrecord, hof⟩ := hr h t ht
    refine ⟨{ r with text := text }, ?_, hof.language_eq, ?_⟩
    · show ledger.write t.id _ t.id = _
      rw [Ledger.write_self, hrecord]
      rfl
    · show Source.encode text t.encoding = _
      rw [hof.encoding_eq]
  · have hne : u.id ≠ t.id := fun hid => hk (hs.id_inj k h u t hu ht hid)
    rw [Ledger.write_of_ne _ _ hne]
    exact hr k u hu

theorem performTree (hs : Sound s) (hr : OnRecord s ledger) (c : TreeCommand) :
    OnRecord (s.performTree c).2 (ledger.note s (s.performTree c) (.tree c)) := by
  cases c with
  | info h =>
    exact withBound_cases (P := fun o => OnRecord o.2 ledger) (fun _ => hr) fun t _ => hr
  | edit h edit text replies =>
    cases ht : s.trees.get? h with
    | none =>
      simp only [Session.performTree, withBound, Ledger.note, ht]
      exact hr
    | some t =>
      simp only [Session.performTree, withBound, Ledger.note, ht]
      exact hr.editTree hs ht edit text _
  | changedRanges h other reply =>
    refine withBound_cases (P := fun o => OnRecord o.2 ledger) (fun _ => hr) fun t _ => ?_
    exact withBound_cases (P := fun o => OnRecord o.2 ledger) (fun _ => hr) fun u _ => hr
  | delete h =>
    refine withBound_cases (P := fun o => OnRecord o.2 ledger) (fun _ => hr) fun t _ => ?_
    intro k u hu
    rw [get?_trees_dropTree] at hu
    split_ifs at hu
    exact hr k u hu

/-- **Records, one action.** -/
theorem act (hs : Sound s) (hr : OnRecord s ledger) (a : Action) :
    OnRecord (s.act compiler a) (ledger.note s (s.outcome compiler a) a) := by
  cases a with
  | parser c => exact hr.performParser hs c
  | tree c => exact hr.performTree hs c
  | node c => exact hr.of_trees_eq (adds_performNode hs c).trees_eq
  | cursor c => exact hr.of_trees_eq (adds_performCursor hs c).trees_eq
  | query c => exact hr.of_trees_eq (adds_performQuery hs c).trees_eq
  | lend key h => exact hr.of_trees_eq (adds_lend key h).trees_eq
  | giveBack key h before => exact hr.of_trees_eq (adds_returnParser key h before).trees_eq

/-- **Records, any number of actions.** -/
theorem afterActions (hs : Sound s) (hr : OnRecord s ledger) (actions : List Action) :
    OnRecord (s.afterActions compiler actions) (ledger.afterActions compiler s actions) := by
  induction actions generalizing s ledger with
  | nil => exact hr
  | cons a actions ih => exact ih (hs.act a) (hr.act hs a)

theorem moment (compiler : QueryCompiler) (files : FileSystem) (check : LanguageCheck)
    (commands : List Command) (count : Nat) :
    OnRecord (moment compiler commands (.start files check) count)
      (records compiler commands (.start files check) count) :=
  (start files check .empty).afterActions (.start files check) _

end OnRecord

/-! ### Trees made from trees -/

theorem exists_addTree_iff {h : Handle} {result : Except Fault Tree} :
    (∃ t, (s.addTree h result).1 = .newTree t) ↔ ∃ t, result = .ok t := by
  cases result with
  | error fault => simp [addTree, withResult, refuse]
  | ok t => simp [addTree, withResult]

section

variable {parser tree h : Handle} {reply : Option Syntax} {p : Parser} {old : Tree}

theorem performParser_reparse (hp : s.parsers.get? parser = some p)
    (hold : s.trees.get? tree = some old) :
    s.performParser (.reparse parser tree h reply)
      = s.addTree h (p.reparse (fun _ _ _ => reply) (s.treeCount + 1) old) := by
  simp only [performParser, withBound, hp, hold]

theorem exists_performParser_reparse_iff :
    (∃ t, (s.performParser (.reparse parser tree h reply)).1 = .newTree t) ↔
      ∃ p old, s.parsers.get? parser = some p ∧ s.trees.get? tree = some old ∧
        old.encoding = p.encoding ∧ p.language.isSome ∧ reply.isSome := by
  cases hp : s.parsers.get? parser with
  | none => simp [performParser, withBound, hp, refuse]
  | some p =>
    cases hold : s.trees.get? tree with
    | none => simp [performParser, withBound, hp, hold, refuse]
    | some old =>
      rw [performParser_reparse hp hold, exists_addTree_iff, Parser.exists_reparse_iff]
      simp

theorem performParser_reparse_otherEncoding (hp : s.parsers.get? parser = some p)
    (hold : s.trees.get? tree = some old) (hne : old.encoding ≠ p.encoding) :
    s.performParser (.reparse parser tree h reply)
      = s.refuse (.fault (.badArgument (.otherEncoding old.encoding p.encoding))) := by
  rw [performParser_reparse hp hold, Parser.reparse, if_pos hne]
  rfl

theorem performParser_reparse_refused {r : Refusal}
    (hr : (s.performParser (.reparse parser tree h reply)).1 = .refused r) :
    (s.performParser (.reparse parser tree h reply)).2 = s := by
  revert hr
  refine withBound_cases (P := fun o => o.1 = .refused r → o.2 = s) (fun _ _ => rfl) fun p _ => ?_
  refine withBound_cases (P := fun o => o.1 = .refused r → o.2 = s) (fun _ _ => rfl) fun t _ => ?_
  exact withResult_cases (P := fun o => o.1 = .refused r → o.2 = s) (fun _ _ => rfl) nofun

end

/-- **What trees keep**, at every moment of every run.  A tree has the language and the encoding of
the parser that made it, and its source is the text last given for it, in this encoding; its nodes
count in units of this encoding, the ratio of which is that of bytes to units in this source.  What
is done later changes neither the language nor the encoding of a tree.  A tree is made from another
one just if the other has the encoding of the parser, the parser has a language and the engine does
its part, and otherwise all is left as it was. -/
theorem trees_on_record (compiler : QueryCompiler) (files : FileSystem) (check : LanguageCheck)
    (commands : List Command) (count : Nat) :
    let m := moment compiler commands (start files check) count
    let ledger := records compiler commands (start files check) count
    (∀ h t, m.trees.get? h = some t → ∃ r, ledger t.id = some r ∧
      some t.language = r.maker.language ∧ t.encoding = r.maker.encoding ∧
      t.source = .encode r.text t.encoding ∧ t.source.whole = r.text) ∧
    (∀ e ∈ m.nodes.entries, ∃ r, ledger e.2.tree.id = some r ∧
      e.2.encoding = r.maker.encoding ∧ e.2.tree.source = .encode r.text e.2.encoding ∧
      e.2.tree.source.nativeLength
        = e.2.encoding.ratio * (e.2.encoding.coding.encode r.text.toList).length) ∧
    (∀ h t, m.trees.get? h = some t → ∀ later k u,
      (m.afterActions compiler later).trees.get? k = some u → u.id = t.id →
        k = h ∧ u.language = t.language ∧ u.encoding = t.encoding) ∧
    ∀ parser tree h reply,
      let o := m.performParser (.reparse parser tree h reply)
      ((∃ t, o.1 = .newTree t) ↔
        ∃ p old, m.parsers.get? parser = some p ∧ m.trees.get? tree = some old ∧
          old.encoding = p.encoding ∧ p.language.isSome ∧ reply.isSome) ∧
      (∀ p old, m.parsers.get? parser = some p → m.trees.get? tree = some old →
        old.encoding ≠ p.encoding →
          o.1 = .refused (.fault (.badArgument (.otherEncoding old.encoding p.encoding)))) ∧
      (∀ r, o.1 = .refused r → o.2 = m) := by
  intro m ledger
  have hm : Sound m := .moment compiler files check commands count
  have hr : OnRecord m ledger := .moment compiler files check commands count
  refine ⟨?_, ?_, ?_, ?_⟩
  · intro h t ht
    obtain ⟨r, hrecord, hof⟩ := hr h t ht
    refine ⟨r, hrecord, hof.language_eq.symm, hof.encoding_eq, hof.source_eq_encode, ?_⟩
    rw [hof.source_eq, Source.whole_encode]
  · -- a node has a tree that is there, and so one that is on record
    intro e he
    obtain ⟨⟨h, ht⟩, -⟩ := hm.node_of_mem he
    obtain ⟨r, hrecord, hof⟩ := hr h e.2.tree ht
    have hsource : e.2.tree.source = .encode r.text e.2.encoding := hof.source_eq_encode
    refine ⟨r, hrecord, hof.encoding_eq, hsource, ?_⟩
    rw [hsource, Source.nativeLength_encode]
  · intro h t ht later k u hu hid
    -- the later tree is no newer than `m`, so `m` has it, and under that number `m` has `t`
    have hle : u.id ≤ m.treeCount := by
      rw [hid]
      exact hm.id_le h t ht
    obtain ⟨v, hv, hvid, hlanguage, hencoding⟩ := (TreesFrom.afterActions hm later).old k u hu hle
    have hk : k = h := hm.id_inj k h v t hv ht (hvid.trans hid)
    rw [hk] at hv
    obtain rfl := Option.some.inj (hv.symm.trans ht)
    exact ⟨hk, hlanguage.symm, hencoding.symm⟩
  · intro parser tree h reply o
    refine ⟨exists_performParser_reparse_iff, ?_, fun r => performParser_reparse_refused⟩
    intro p old hp hold hne
    exact congrArg Prod.fst (performParser_reparse_otherEncoding hp hold hne)

/-- A tree that is edited after its parser has changed to the other encoding.  It keeps its own, and
the parser does not take it any more. -/
theorem trees_on_record_switched :
    let compiler : QueryCompiler := fun _ p => .ok ⟨[p], []⟩
    let edit : Edit := ⟨0, 1, 1, ⟨0, 0⟩, ⟨0, 1⟩, ⟨0, 1⟩⟩
    let commands : List Command :=
      [.parser (.newFor "parser" "javascript"), .parser (.setEncoding "parser" .utf16),
        .parser (.parse "parser" "a+b;" "tree" (some Sample.statement)),
        .parser (.setEncoding "parser" .utf8), .tree (.edit "tree" edit "c+b;" [])]
    let s := start FileStore.empty.system fun _ => none
    let m := moment compiler commands s 5
    let o := m.performParser (.reparse "parser" "tree" "other" (some Sample.statement))
    (∃ t, m.trees.get? "tree" = some t ∧ some t.language = some .javascript ∧
      t.encoding = .utf16 ∧ t.source.whole = "c+b;") ∧
    o.1 = .refused (.fault (.badArgument (.otherEncoding .utf16 .utf8))) ∧ o.2 = m := by
  intro compiler edit commands s m o
  obtain ⟨htrees, -, -, hreparse⟩ := trees_on_record compiler FileStore.empty.system
    (fun _ => none) commands 5
  have hbound : (m.trees.get? "tree").map (·.id) = some 1 := by decide +kernel
  obtain ⟨t, ht, hid⟩ := Option.map_eq_some_iff.1 hbound
  have hrecord : records compiler commands s 5 1
      = some ⟨⟨1, some .javascript, .utf16⟩, "c+b;"⟩ := rfl
  obtain ⟨r, hr, hlanguage, hencoding, -, hwhole⟩ := htrees "tree" t ht
  rw [hid, hrecord] at hr
  obtain rfl := Option.some.inj hr
  have hp : m.parsers.get? "parser" = some ⟨1, some .javascript, .utf8⟩ := by decide +kernel
  obtain ⟨-, hother, hunchanged⟩ := hreparse "parser" "tree" "other" (some Sample.statement)
  have hrefused := hother _ t hp ht (by rw [hencoding]; decide)
  rw [hencoding] at hrefused
  exact ⟨⟨t, ht, hlanguage, hencoding, hwhole⟩, hrefused, hunchanged _ hrefused⟩

end Session

end SyntaxView
