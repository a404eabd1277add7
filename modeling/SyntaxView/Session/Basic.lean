import SyntaxView.Outline
import SyntaxView.Query.Cursor
import SyntaxView.Query.Cache
import SyntaxView.Parser.Pool
import SyntaxView.Settings

/-!
# Sessions

A session is everything that a run of commands works on: the things that have been given names, the
query cache, the parser pool, the files and the engine's verdicts on languages.  Names are handles;
parsers, trees, nodes, cursors, queries and query cursors have a name space each.

A handle goes dead when what it looks at changes under it.  A node, a cursor or a query cursor
looks at a tree, and all of them are forgotten before the tree is edited or given up, be it that it
is deleted or that its name is given to another tree.  A query cursor also looks at a query, by the
name it was opened through, and is forgotten before this query is changed or given up.
-/

namespace SyntaxView

/-- The name of something in a session. -/
abbrev Handle := String

/-! ### Bindings -/

/-- What names stand for. -/
structure Bindings (α : Type) where
  entries : List (Handle × α)
  deriving Repr

namespace Bindings

variable {α : Type}

def empty : Bindings α := ⟨[]⟩

def get? (b : Bindings α) (h : Handle) : Option α := b.entries.lookup h

/-- The bindings without a name. -/
def unbind (b : Bindings α) (h : Handle) : Bindings α := ⟨b.entries.filter (·.1 != h)⟩

/-- The bindings with a new meaning for a name. -/
def bind (b : Bindings α) (h : Handle) (a : α) : Bindings α := ⟨(h, a) :: (b.unbind h).entries⟩

/-- The bindings with a new meaning for a name, or none. -/
def set (b : Bindings α) (h : Handle) : Option α → Bindings α
  | some a => b.bind h a
  | none => b.unbind h

/-- The bindings of what passes a test. -/
def keep (b : Bindings α) (p : α → Bool) : Bindings α := ⟨b.entries.filter fun e => p e.2⟩

/-- Unbinding a name keeps the entries of all other names. -/
theorem mem_entries_unbind {b : Bindings α} {h : Handle} {e : Handle × α} :
    e ∈ (b.unbind h).entries ↔ e ∈ b.entries ∧ e.1 ≠ h := by
  simp [unbind]

/-- Binding a name adds its entry to those of all other names. -/
theorem mem_entries_bind {b : Bindings α} {h : Handle} {a : α} {e : Handle × α} :
    e ∈ (b.bind h a).entries ↔ e = (h, a) ∨ e ∈ b.entries ∧ e.1 ≠ h := by
  simp [bind, mem_entries_unbind]

theorem mem_entries_keep {b : Bindings α} {p : α → Bool} {e : Handle × α} :
    e ∈ (b.keep p).entries ↔ e ∈ b.entries ∧ p e.2 = true := by
  simp [keep]

/-- A name stands for what it was bound to last. -/
@[simp]
theorem get?_bind_self (b : Bindings α) (h : Handle) (a : α) : (b.bind h a).get? h = some a := by
  simp [bind, get?]

/-- What a name stands for is one of the entries. -/
theorem mem_entries_of_get? {b : Bindings α} {h : Handle} {a : α} (hb : b.get? h = some a) :
    (h, a) ∈ b.entries := by
  obtain ⟨entries⟩ := b
  simp only [get?] at hb ⊢
  induction entries with
  | nil => simp at hb
  | cons e rest ih =>
    obtain ⟨k, v⟩ := e
    by_cases hk : h = k
    · subst hk
      obtain rfl : v = a := by simpa using hb
      exact List.mem_cons_self
    · have hne : (h == k) = false := by simpa using hk
      rw [List.lookup_cons, hne] at hb
      exact List.mem_cons_of_mem _ (ih hb)

end Bindings

/-! ### Sessions -/

/-- A query by name, and whether it is shared with the cache. -/
structure NamedQuery where
  query : Query
  shared : Bool
  deriving Repr

/-- A query cursor by name, and the name of the query it was opened through. -/
structure NamedQueryCursor where
  cursor : QueryCursor
  through : Handle
  deriving Repr

/-- Everything that a run of commands works on. -/
structure Session where
  files : FileSystem
  check : LanguageCheck
  parsers : Bindings Parser
  trees : Bindings Tree
  nodes : Bindings Node
  cursors : Bindings Cursor
  queries : Bindings NamedQuery
  queryCursors : Bindings NamedQueryCursor
  cache : QueryCache
  pool : ParserPool
  /-- The parsers that are out of the pool, the one taken last first.  Each is here as it is now,
  whatever its name has come to stand for. -/
  lent : List Parser
  /-- The number of trees made so far, which is the number of the last one. -/
  treeCount : Nat
  /-- The number of parsers and queries made so far. -/
  serialCount : Nat

namespace Session

/-- A session in which nothing has happened yet. -/
def start (files : FileSystem) (check : LanguageCheck) : Session where
  files := files
  check := check
  parsers := .empty
  trees := .empty
  nodes := .empty
  cursors := .empty
  queries := .empty
  queryCursors := .empty
  cache := .empty
  pool := .empty
  lent := []
  treeCount := 0
  serialCount := 0

variable (s : Session)

/-! ### Forgetting -/

/-- The session after everything that looks at a tree is forgotten. -/
def forgetTree (id : Nat) : Session :=
  { s with
    nodes := s.nodes.keep (·.tree.id != id)
    cursors := s.cursors.keep (·.tree.id != id)
    queryCursors := s.queryCursors.keep (·.cursor.node.tree.id != id) }

/-- The session after every query cursor that was opened through a name is forgotten. -/
def forgetQuery (h : Handle) : Session :=
  { s with queryCursors := s.queryCursors.keep (·.through != h) }

/-! ### Binding -/

/-- The session after a tree is given up. -/
def dropTree (h : Handle) : Session :=
  match s.trees.get? h with
  | none => s
  | some t => { s.forgetTree t.id with trees := s.trees.unbind h }

/-- The session with a name for a tree; the tree it named before is given up. -/
def bindTree (h : Handle) (t : Tree) : Session :=
  let s := s.dropTree h
  { s with trees := s.trees.bind h t }

/-- The session with a name for a query; the query it named before is given up. -/
def bindQuery (h : Handle) (q : NamedQuery) : Session :=
  let s := s.forgetQuery h
  { s with queries := s.queries.bind h q }

/-- The session with a name, if one is wanted, for a node.  Where there is no node the name is
unbound. -/
def bindNode (h : Option Handle) (n : Option Node) : Session :=
  match h with
  | none => s
  | some h => { s with nodes := s.nodes.set h n }

def bindCursor (h : Handle) (c : Cursor) : Session := { s with cursors := s.cursors.bind h c }

/-- The session with a name for a parser.  If it is one that is out of the pool, this is how it is
from now on. -/
def bindParser (h : Handle) (p : Parser) : Session :=
  { s with
    parsers := s.parsers.bind h p
    lent := s.lent.map fun q => if q.serial = p.serial then p else q }

/-- A number that no parser and no query has, and the session that will not give it out again. -/
def freshSerial : Nat × Session := (s.serialCount + 1, { s with serialCount := s.serialCount + 1 })

end Session

/-! ### Answers -/

/-- Why a command was not carried out. -/
inductive Refusal where
  | fault (fault : Fault)
  | settings (error : Settings.LoadError)
  /-- A name stands for nothing. -/
  | noHandle (handle : Handle)
  /-- A query that is shared with the cache cannot be changed. -/
  | shared (handle : Handle)
  /-- A cursor is under way, and an outline is written from an origin only. -/
  | underWay (handle : Handle)
  deriving Repr

/-- What a command answers. -/
inductive Answer where
  | done
  | flag (value : Bool)
  | number (value : Nat)
  | text (value : Option String)
  | settings (settings : Settings)
  | parser (parser : Parser)
  | newTree (tree : Tree)
  | tree (tree : Tree)
  | ranges (ranges : List Range)
  | node (node : Option Node)
  | nodes (nodes : List Node)
  | nodeInfo (node : Node)
  | identity (same sameHash : Bool)
  | cursor (cursor : Cursor)
  | walked (seen : List Node) (after : Cursor)
  | outlined (text : String) (after : Cursor)
  | written (text : String)
  | newQuery (query : Query)
  | query (query : Query) (patterns : List Pattern)
  /-- Matches; where a capture is asked for, its nodes are shown with each of them. -/
  | found (found : List QueryMatch) (capture : Option String)
  | queryCursor (cursor : QueryCursor)
  | executed (found : List (Option QueryMatch)) (capture : Option String) (exceeded : Bool)
  | answers (answers : List Answer)
  | refused (refusal : Refusal)

/-- What a command answers, and the session after it. -/
abbrev Outcome := Answer × Session

namespace Session

variable (s : Session)

/-- The command is not carried out. -/
def refuse (r : Refusal) : Outcome := (.refused r, s)

/-- Go on with what a name stands for. -/
def withBound {α : Type} (b : Bindings α) (h : Handle) (next : α → Outcome) : Outcome :=
  match b.get? h with
  | none => s.refuse (.noHandle h)
  | some a => next a

/-- Go on with a result, if it is one. -/
def withResult {α : Type} (result : Except Fault α) (next : α → Outcome) : Outcome :=
  match result with
  | .error fault => s.refuse (.fault fault)
  | .ok a => next a

/-- Go on with the settings of a text. -/
def withSettings (text : String) (next : Settings → Outcome) : Outcome :=
  match Settings.load text with
  | .error error => s.refuse (.settings error)
  | .ok settings => next settings

end Session

end SyntaxView
