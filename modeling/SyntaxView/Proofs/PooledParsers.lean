import Mathlib.Data.List.Induction
import Mathlib.Tactic.SplitIfs
import SyntaxView.Proofs.FileLanguage

/-!
# Parsers from the pool

A loan starts with a parser for a language and an encoding and ends with the parser back in the
pool.  Which parser is handed out is told by what has come and gone before: it is the one that was
put back last under that key, as it was then, or a new one if there is none
(`Session.handed_out`).  So the pool gives what it is asked for just as long as what is put back
is as it was taken.  It gives nothing only if a new parser is needed and the engine refuses its
language (`ParserPool.take_eq_error_iff`).

`PoolEvent` is a coming or going of a parser, `Session.poolEvents` those of a run, and
`PoolEvent.idle?` tells from them what lies in the pool.  That it does is the invariant
(`Session.PoolAgrees`); all actions but a loan's start and its end leave the pool alone
(`Session.PoolAgrees.act`).  A run that calls no setter puts every parser back as it was taken,
also where loans are nested: `Session.Faithful` follows the key each bound parser was taken under.
-/

namespace SyntaxView

/-- The parser is one for that language and encoding. -/
def Parser.IsFor (key : Language × Encoding) (p : Parser) : Prop :=
  p.language = some key.1 ∧ p.encoding = key.2

/-! ### Comings and goings -/

/-- A parser leaves the pool to be used, or comes back. -/
inductive PoolEvent where
  | taken (key : Language × Encoding) (parser : Parser)
  | returned (key : Language × Encoding) (parser : Parser)
  deriving Repr, DecidableEq

namespace PoolEvent

/-- What lies idle under a key after an event, given what did before. -/
def next (key : Language × Encoding) (idle : Option Parser) : PoolEvent → Option Parser
  | taken k _ => if k = key then none else idle
  | returned k p => if k = key then some p else idle

/-- What lies idle under a key after a number of events: the parser that was put back last, unless
it has been taken again. -/
def idle? (key : Language × Encoding) (events : List PoolEvent) : Option Parser :=
  events.foldl (next key) none

theorem idle?_append_singleton (key : Language × Encoding) (events : List PoolEvent)
    (e : PoolEvent) : idle? key (events ++ [e]) = e.next key (idle? key events) := by
  rw [idle?, List.foldl_append]
  rfl

/-- What lies idle has been put back. -/
theorem returned_mem_of_idle? {key : Language × Encoding} {events : List PoolEvent} {p : Parser}
    (h : idle? key events = some p) : returned key p ∈ events := by
  induction events using List.reverseRecOn with
  | nil => cases h
  | append_singleton events e ih =>
    rw [idle?_append_singleton] at h
    cases e with
    | taken k q =>
      simp only [next] at h
      split_ifs at h
      exact List.mem_append_left _ (ih h)
    | returned k q =>
      simp only [next] at h
      split_ifs at h with hk
      · obtain rfl := Option.some.inj h
        rw [hk]
        exact List.mem_append_right _ List.mem_cons_self
      · exact List.mem_append_left _ (ih h)

end PoolEvent

namespace ParserPool

/-- What lies in a pool under a key. -/
def idle? (pool : ParserPool) (key : Language × Encoding) : Option Parser := pool.entries.lookup key

theorem idle?_erase (pool : ParserPool) (key k : Language × Encoding) :
    (pool.erase key).idle? k = if k = key then none else pool.idle? k :=
  lookup_filter_ne pool.entries key k

theorem idle?_put (pool : ParserPool) (key k : Language × Encoding) (p : Parser) :
    (pool.put key p).idle? k = if k = key then some p else pool.idle? k := by
  have herase := pool.idle?_erase key k
  simp only [put, idle?, List.lookup_cons] at herase ⊢
  by_cases hk : k = key
  · simp [hk]
  · have hne : (k == key) = false := by simpa using hk
    rw [if_neg hk] at herase ⊢
    rw [hne, herase]

/-- **A parser that is handed out** is the one under the key, which is then gone from the pool, or a
new one if there is none and the engine takes the language. -/
theorem take_cases {pool pool' : ParserPool} {check : LanguageCheck} {serial : Nat}
    {key : Language × Encoding} {p : Parser} (h : pool.take check serial key = .ok (p, pool')) :
    pool.idle? key = some p ∧ pool' = pool.erase key ∨
      pool.idle? key = none ∧ check key.1 = none ∧ p = ⟨serial, some key.1, key.2⟩ ∧
        pool' = pool := by
  rw [take] at h
  rw [idle?]
  cases hidle : pool.entries.lookup key with
  | some q =>
    rw [hidle] at h
    cases h
    exact .inl ⟨rfl, rfl⟩
  | none =>
    rw [hidle] at h
    dsimp only at h
    cases hcheck : check key.1 with
    | none =>
      rw [Parser.ofLanguage, Parser.setLanguage_of_accepted _ hcheck] at h
      cases h
      exact .inr ⟨rfl, rfl, rfl, rfl⟩
    | some remark =>
      rw [Parser.ofLanguage, Parser.setLanguage_of_refused _ hcheck] at h
      cases h

/-- **No parser is handed out** just if there is none under the key and the engine refuses the
language. -/
theorem take_eq_error_iff {pool : ParserPool} {check : LanguageCheck} {serial : Nat}
    {key : Language × Encoding} {fault : Fault} :
    pool.take check serial key = .error fault ↔
      pool.idle? key = none ∧
        ∃ remark, check key.1 = some remark ∧ fault = .languageRefused key.1.name remark := by
  rw [take, idle?]
  cases pool.entries.lookup key with
  | some q => simp
  | none =>
    dsimp only
    cases hcheck : check key.1 with
    | none => simp [Parser.ofLanguage, Parser.setLanguage_of_accepted _ hcheck]
    | some remark => simp [Parser.ofLanguage, Parser.setLanguage_of_refused _ hcheck, eq_comm]

theorem idle?_take {pool pool' : ParserPool} {check : LanguageCheck} {serial : Nat}
    {key : Language × Encoding} {p : Parser} (h : pool.take check serial key = .ok (p, pool'))
    (k : Language × Encoding) : pool'.idle? k = if k = key then none else pool.idle? k := by
  rcases take_cases h with ⟨-, rfl⟩ | ⟨hnone, -, -, rfl⟩
  · exact pool.idle?_erase key k
  · by_cases hk : k = key
    · rw [if_pos hk, hk]
      exact hnone
    · rw [if_neg hk]

theorem mem_entries_of_idle? {pool : ParserPool} {key : Language × Encoding} {p : Parser}
    (h : pool.idle? key = some p) : (key, p) ∈ pool.entries := by
  obtain ⟨earlier, later, hentries, -⟩ := List.lookup_eq_some_iff.1 h
  rw [hentries]
  exact List.mem_append_right _ List.mem_cons_self

/-- Taking a parser out adds nothing to the pool. -/
theorem mem_entries_of_take {pool pool' : ParserPool} {check : LanguageCheck} {serial : Nat}
    {key : Language × Encoding} {p : Parser} (h : pool.take check serial key = .ok (p, pool'))
    {e : (Language × Encoding) × Parser} (he : e ∈ pool'.entries) : e ∈ pool.entries := by
  rcases take_cases h with ⟨-, rfl⟩ | ⟨-, -, -, rfl⟩
  · exact (mem_entries_erase.1 he).1
  · exact he

end ParserPool

namespace Session

variable {compiler : QueryCompiler} {s : Session}

/-- What an action does to the pool: the start of a loan hands out a parser, if one is to be had,
under the name that is given, and its end puts a parser back. -/
def poolEvent? (s : Session) : Action → Option PoolEvent
  | .lend key h => do
    let lending ← (s.borrowParser key h).toOption
    return .taken key (← lending.parsers.get? h)
  | .giveBack key _ _ => s.lent.head?.map (.returned key)
  | _ => none

/-- The comings and goings during a number of actions. -/
def poolEvents (compiler : QueryCompiler) : Session → List Action → List PoolEvent
  | _, [] => []
  | s, a :: actions => (s.poolEvent? a).toList ++ poolEvents compiler (s.act compiler a) actions

theorem poolEvent?_lend {lending : Session} {key : Language × Encoding} {h : Handle} {p : Parser}
    {pool : ParserPool} (hlend : s.borrowParser key h = .ok lending)
    (htake : s.pool.take s.check (s.serialCount + 1) key = .ok (p, pool)) :
    s.poolEvent? (.lend key h) = some (.taken key p) := by
  obtain ⟨q, _, hq, rfl⟩ := exists_borrowParser_eq hlend
  obtain ⟨rfl, -⟩ := Prod.mk.inj (Except.ok.inj (hq.symm.trans htake))
  simp [poolEvent?, hlend, Except.toOption, lendOut]

theorem poolEvent?_lend_of_error {key : Language × Encoding} {h : Handle} {fault : Fault}
    (hlend : s.borrowParser key h = .error fault) : s.poolEvent? (.lend key h) = none := by
  simp [poolEvent?, hlend, Except.toOption]

/-- **The start of a loan**: nothing happens, or a parser goes out. -/
theorem lend_cases (compiler : QueryCompiler) (s : Session) (key : Language × Encoding)
    (h : Handle) :
    s.act compiler (.lend key h) = s ∧ s.poolEvent? (.lend key h) = none ∨
      ∃ p pool, s.pool.take s.check (s.serialCount + 1) key = .ok (p, pool) ∧
        s.act compiler (.lend key h) = s.lendOut h p pool ∧
        s.poolEvent? (.lend key h) = some (.taken key p) := by
  cases hlend : s.borrowParser key h with
  | error fault => exact .inl ⟨act_lend_of_error hlend, poolEvent?_lend_of_error hlend⟩
  | ok lending =>
    obtain ⟨p, pool, htake, hlending⟩ := exists_borrowParser_eq hlend
    exact .inr ⟨p, pool, htake, (act_lend hlend).trans hlending, poolEvent?_lend hlend htake⟩

/-! ### The invariant -/

/-- What lies in the pool is what the events say. -/
def PoolAgrees (s : Session) (events : List PoolEvent) : Prop :=
  ∀ key, s.pool.idle? key = PoolEvent.idle? key events

theorem PoolAgrees.start (files : FileSystem) (check : LanguageCheck) :
    PoolAgrees (.start files check) [] :=
  fun _ => rfl

theorem PoolAgrees.lend {events : List PoolEvent} (hs : PoolAgrees s events)
    {key : Language × Encoding} {serial : Nat} {p : Parser} {pool : ParserPool}
    (htake : s.pool.take s.check serial key = .ok (p, pool)) {s' : Session}
    (hpool : s'.pool = pool) : PoolAgrees s' (events ++ [.taken key p]) := by
  intro k
  rw [PoolEvent.idle?_append_singleton, ← hs k, hpool, ParserPool.idle?_take htake]
  show _ = if key = k then none else s.pool.idle? k
  by_cases hk : k = key
  · rw [if_pos hk, if_pos hk.symm]
  · rw [if_neg hk, if_neg (Ne.symm hk)]

theorem PoolAgrees.giveBack {events : List PoolEvent} (hs : PoolAgrees s events)
    (key : Language × Encoding) (h : Handle) (before : Option Parser) :
    PoolAgrees (s.returnParser key h before)
      (events ++ (s.lent.head?.map (.returned key)).toList) := by
  unfold returnParser
  cases s.lent with
  | nil => exact (List.append_nil events).symm ▸ hs
  | cons p others =>
    intro k
    show (s.pool.put key p).idle? k = PoolEvent.idle? k (events ++ [.returned key p])
    rw [PoolEvent.idle?_append_singleton, ← hs k, ParserPool.idle?_put]
    show _ = if key = k then some p else s.pool.idle? k
    by_cases hk : k = key
    · rw [if_pos hk, if_pos hk.symm]
    · rw [if_neg hk, if_neg (Ne.symm hk)]

theorem PoolAgrees.of_pool_eq {events : List PoolEvent} (hs : PoolAgrees s events)
    {s' : Session} (hpool : s'.pool = s.pool) : PoolAgrees s' (events ++ []) := by
  rw [List.append_nil]
  intro key
  rw [hpool]
  exact hs key

/-- **The pool, one action.** -/
theorem PoolAgrees.act {events : List PoolEvent} (hs : PoolAgrees s events) (a : Action) :
    PoolAgrees (s.act compiler a) (events ++ (s.poolEvent? a).toList) := by
  cases a with
  | parser c =>
    obtain ⟨_, _, _, _, _, _, _, _, hafter⟩ := s.exists_performParser_eq c
    have hpool : (s.performParser c).2.pool = s.pool := by rw [hafter]
    exact hs.of_pool_eq hpool
  | tree c =>
    obtain ⟨_, _, _, _, hafter⟩ := s.exists_performTree_eq c
    have hpool : (s.performTree c).2.pool = s.pool := by rw [hafter]
    exact hs.of_pool_eq hpool
  | node c =>
    obtain ⟨_, hafter⟩ := s.exists_performNode_eq c
    have hpool : (s.performNode c).2.pool = s.pool := by rw [hafter]
    exact hs.of_pool_eq hpool
  | cursor c =>
    obtain ⟨_, _, hafter⟩ := s.exists_performCursor_eq c
    have hpool : (s.performCursor c).2.pool = s.pool := by rw [hafter]
    exact hs.of_pool_eq hpool
  | query c =>
    obtain ⟨_, _, _, _, -, hafter⟩ := exists_performQuery_eq compiler s c
    have hpool : (s.performQuery compiler c).2.pool = s.pool := by rw [hafter]
    exact hs.of_pool_eq hpool
  | lend key h =>
    rcases lend_cases compiler s key h with ⟨hafter, hevent⟩ | ⟨p, pool, htake, hafter, hevent⟩
    · rw [hafter, hevent]
      exact hs.of_pool_eq rfl
    · rw [hafter, hevent]
      exact hs.lend htake rfl
  | giveBack key h before => exact hs.giveBack key h before

/-- Only the start of a loan hands out a parser. -/
theorem eq_lend_of_poolEvent? {a : Action} {key : Language × Encoding} {p : Parser}
    (ha : s.poolEvent? a = some (.taken key p)) :
    ∃ pool, s.pool.take s.check (s.serialCount + 1) key = .ok (p, pool) := by
  cases a with
  | lend k h =>
    cases hlend : s.borrowParser k h with
    | error fault =>
      rw [poolEvent?_lend_of_error hlend] at ha
      cases ha
    | ok lending =>
      obtain ⟨q, pool, htake, -⟩ := exists_borrowParser_eq hlend
      rw [poolEvent?_lend hlend htake] at ha
      cases ha
      exact ⟨pool, htake⟩
  | giveBack k h before =>
    obtain ⟨q, -, hq⟩ := Option.map_eq_some_iff.1 ha
    cases hq
  | _ => cases ha

/-- **The pool, any number of actions.**  Where a parser is handed out, it is the one that the
events before it have left in the pool, or a new one. -/
theorem PoolAgrees.taken {events : List PoolEvent} (hs : PoolAgrees s events)
    {actions : List Action} {before later : List PoolEvent} {key : Language × Encoding}
    {p : Parser} (h : poolEvents compiler s actions = before ++ .taken key p :: later) :
    (∀ q, PoolEvent.idle? key (events ++ before) = some q → p = q) ∧
      (PoolEvent.idle? key (events ++ before) = none → p.IsFor key) := by
  -- the induction is on the actions; `events` are those of the actions already done
  induction actions generalizing s events before with
  | nil => simp [poolEvents] at h
  | cons a actions ih =>
    have hnext : PoolAgrees (s.act compiler a) (events ++ (s.poolEvent? a).toList) := hs.act a
    rw [poolEvents] at h
    cases ha : s.poolEvent? a with
    | none =>
      rw [ha] at h hnext
      rw [Option.toList_none, List.append_nil] at hnext
      exact ih hnext h
    | some e =>
      rw [ha] at h hnext
      cases before with
      | nil =>
        obtain ⟨rfl, -⟩ := List.cons.inj h
        rw [List.append_nil, ← hs key]
        obtain ⟨pool, htake⟩ := eq_lend_of_poolEvent? ha
        rcases ParserPool.take_cases htake with ⟨hidle, -⟩ | ⟨hidle, -, rfl, -⟩
        · rw [hidle]
          exact ⟨fun q hq => Option.some.inj hq, nofun⟩
        · rw [hidle]
          exact ⟨nofun, fun _ => ⟨rfl, rfl⟩⟩
      | cons b before =>
        obtain ⟨rfl, hrest⟩ := List.cons.inj h
        have hrun := ih hnext hrest
        rw [List.append_assoc] at hrun
        exact hrun

theorem poolEvents_append (s : Session) (earlier later : List Action) :
    poolEvents compiler s (earlier ++ later)
      = poolEvents compiler s earlier
        ++ poolEvents compiler (s.afterActions compiler earlier) later := by
  induction earlier generalizing s with
  | nil => rfl
  | cons a earlier ih =>
    rw [List.cons_append, poolEvents, poolEvents, ih, List.append_assoc]
    rfl

/-- The comings and goings of a loan are those of its body, between its own. -/
theorem poolEvents_loan {lending : Session} {key : Language × Encoding} {h : Handle} {p : Parser}
    {pool : ParserPool} (hlend : s.borrowParser key h = .ok lending)
    (htake : s.pool.take s.check (s.serialCount + 1) key = .ok (p, pool)) (body : List Action)
    (before : Option Parser) :
    poolEvents compiler s (.lend key h :: (body ++ [.giveBack key h before]))
      = .taken key p :: (poolEvents compiler lending body
        ++ ((lending.afterActions compiler body).lent.head?.map (.returned key)).toList) := by
  have hend : ∀ s : Session, poolEvents compiler s [.giveBack key h before]
      = (s.lent.head?.map (.returned key)).toList := fun _ => List.append_nil _
  rw [poolEvents, poolEvent?_lend hlend htake, act_lend hlend, poolEvents_append, hend]
  rfl

end Session

/-! ### Loans during which nothing is set

Only two commands change the language or the encoding of a parser that has both.  As long as
neither is used, a parser that was made for the pool stays as it was made, whatever names it goes
by and however loans are nested.
-/

/-- An action that sets the language or the encoding of a parser. -/
def Action.sets : Action → Bool
  | .parser (.setLanguage _ _) => true
  | .parser (.setEncoding _ _) => true
  | _ => false

namespace Parser

theorem serial_of_ofLanguage {check : LanguageCheck} {serial : Nat} {l : Language} {p : Parser}
    (h : ofLanguage check serial l = .ok p) : p.serial = serial := by
  rw [ofLanguage, setLanguage] at h
  split at h
  · cases h
  · cases h
    rfl

/-- A file leaves the parser as it was, but for a language if it had none. -/
theorem parseFile_snd (p : Parser) (engine : ParseEngine) (check : LanguageCheck)
    (files : FileSystem) (id : Nat) (path : String) :
    let q := (p.parseFile engine check files id path).2
    q.serial = p.serial ∧ ∀ key, p.IsFor key → q.IsFor key := by
  intro q
  have hq : q = { p with language := p.language.or (Language.adopted? check files path) } :=
    p.snd_parseFile engine check files id path
  rw [hq]
  refine ⟨rfl, fun key hkey => ⟨?_, hkey.2⟩⟩
  show p.language.or _ = some key.1
  rw [hkey.1, Option.some_or]

end Parser

/-- What the parsers that were made for the pool were made for, by their numbers. -/
abbrev PoolKeys := Nat → Option (Language × Encoding)

namespace Session

/-- A parser with a number up to `count`, which is as it was made if it was made for the pool. -/
structure Fits (made : PoolKeys) (count : Nat) (p : Parser) : Prop where
  serial_le : p.serial ≤ count
  isFor : ∀ key, made p.serial = some key → p.IsFor key

/-- All parsers of a session are as they were made, and lie in the pool under the key they were made
for. -/
structure Faithful (made : PoolKeys) (s : Session) : Prop where
  known : ∀ k key, made k = some key → k ≤ s.serialCount
  parsers : ∀ e ∈ s.parsers.entries, Fits made s.serialCount e.2
  lent : ∀ p ∈ s.lent, Fits made s.serialCount p
  pool : ∀ e ∈ s.pool.entries, Fits made s.serialCount e.2 ∧ made e.2.serial = some e.1

/-- A later session, with the same parsers on loan. -/
structure Later (made : PoolKeys) (s : Session) (made' : PoolKeys) (s' : Session) : Prop where
  count_le : s.serialCount ≤ s'.serialCount
  made_eq : ∀ k, k ≤ s.serialCount → made' k = made k
  serials_eq : s'.lent.map (·.serial) = s.lent.map (·.serial)

variable {compiler : QueryCompiler} {s : Session} {made : PoolKeys}

theorem Later.refl (made : PoolKeys) (s : Session) : Later made s made s :=
  ⟨Nat.le_refl _, fun _ _ => rfl, rfl⟩

theorem Later.trans {made₁ made₂ made₃ : PoolKeys} {s₁ s₂ s₃ : Session}
    (h₁ : Later made₁ s₁ made₂ s₂) (h₂ : Later made₂ s₂ made₃ s₃) : Later made₁ s₁ made₃ s₃ where
  count_le := Nat.le_trans h₁.count_le h₂.count_le
  made_eq := fun k hk =>
    (h₂.made_eq k (Nat.le_trans hk h₁.count_le)).trans (h₁.made_eq k hk)
  serials_eq := h₂.serials_eq.trans h₁.serials_eq

theorem Fits.mono {count count' : Nat} {p : Parser} (hp : Fits made count p) {made' : PoolKeys}
    (hcount : count ≤ count') (hmade : ∀ k, k ≤ count → made' k = made k) :
    Fits made' count' p := by
  refine ⟨Nat.le_trans hp.serial_le hcount, ?_⟩
  intro key hkey
  rw [hmade _ hp.serial_le] at hkey
  exact hp.isFor key hkey

/-- A parser that is given a name keeps its number where it is on loan. -/
theorem serials_bindParser (s : Session) (h : Handle) (p : Parser) :
    (s.bindParser h p).lent.map (·.serial) = s.lent.map (·.serial) := by
  show (s.lent.map _).map _ = _
  rw [List.map_map]
  refine List.map_congr_left fun q _ => ?_
  by_cases hserial : q.serial = p.serial
  · simp [hserial]
  · simp [hserial]

namespace Faithful

theorem start (files : FileSystem) (check : LanguageCheck) :
    Faithful (fun _ => none) (.start files check) where
  known := by simp
  parsers := by simp [Session.start, Bindings.empty]
  lent := by simp [Session.start]
  pool := by simp [Session.start, ParserPool.empty]

/-- Only parsers, loans, the pool and the numbers matter. -/
theorem of_eq (hs : Faithful made s) {s' : Session} (hparsers : s'.parsers = s.parsers)
    (hlent : s'.lent = s.lent) (hpool : s'.pool = s.pool)
    (hcount : s.serialCount ≤ s'.serialCount) :
    Faithful made s' ∧ Later made s made s' := by
  have hfits : ∀ {p}, Fits made s.serialCount p → Fits made s'.serialCount p :=
    fun hp => hp.mono hcount fun _ _ => rfl
  refine ⟨⟨?_, ?_, ?_, ?_⟩, hcount, fun _ _ => rfl, by rw [hlent]⟩
  · exact fun k key hk => Nat.le_trans (hs.known k key hk) hcount
  · rw [hparsers]
    exact fun e he => hfits (hs.parsers e he)
  · rw [hlent]
    exact fun p hp => hfits (hs.lent p hp)
  · rw [hpool]
    exact fun e he => ⟨hfits (hs.pool e he).1, (hs.pool e he).2⟩

/-- A parser that fits may be given a name; where it is on loan, it is on loan as it is now. -/
theorem bindParser (hs : Faithful made s) (h : Handle) {p : Parser}
    (hp : Fits made s.serialCount p) :
    Faithful made (s.bindParser h p) ∧ Later made s made (s.bindParser h p) := by
  refine ⟨⟨hs.known, ?_, ?_, hs.pool⟩, Nat.le_refl _, fun _ _ => rfl, s.serials_bindParser h p⟩
  · intro e he
    rcases Bindings.mem_entries_bind.1 he with rfl | ⟨he, -⟩
    · exact hp
    · exact hs.parsers e he
  · intro q hq
    obtain ⟨q₀, hq₀, rfl⟩ := List.mem_map.1 hq
    by_cases hserial : q₀.serial = p.serial
    · simp only [hserial, if_true]
      exact hp
    · simp only [hserial, if_false]
      exact hs.lent q₀ hq₀

/-- A parser that is made for the caller has a new number. -/
theorem bindNew (hs : Faithful made s) (h : Handle) {p : Parser}
    (hserial : p.serial = s.serialCount + 1) :
    Faithful made ({ s with serialCount := s.serialCount + 1 }.bindParser h p) ∧
      Later made s made ({ s with serialCount := s.serialCount + 1 }.bindParser h p) := by
  obtain ⟨hcounted, hlater⟩ : Faithful made { s with serialCount := s.serialCount + 1 } ∧ _ :=
    hs.of_eq rfl rfl rfl (Nat.le_succ _)
  have hp : Fits made (s.serialCount + 1) p := by
    refine ⟨Nat.le_of_eq hserial, fun key hkey => ?_⟩
    have hle := hs.known _ key hkey
    omega
  obtain ⟨hbound, hlater'⟩ := hcounted.bindParser h hp
  exact ⟨hbound, hlater.trans hlater'⟩

theorem addTree (hs : Faithful made s) (h : Handle) (result : Except Fault Tree) :
    Faithful made (s.addTree h result).2 ∧ Later made s made (s.addTree h result).2 := by
  refine withResult_cases (P := fun o => Faithful made o.2 ∧ Later made s made o.2) ?_ ?_
  · exact fun _ => ⟨hs, Later.refl made s⟩
  · intro t _
    obtain ⟨trees, nodes, cursors, queryCursors, hdrop⟩ :=
      exists_dropTree_eq { s with treeCount := s.treeCount + 1 } h
    show Faithful made (Session.bindTree _ h t) ∧ Later made s made (Session.bindTree _ h t)
    rw [bindTree, hdrop]
    exact hs.of_eq rfl rfl rfl (Nat.le_refl _)

theorem performParser (hs : Faithful made s) {c : ParserCommand}
    (hc : (Action.parser c).sets = false) :
    Faithful made (s.performParser c).2 ∧ Later made s made (s.performParser c).2 := by
  let P (o : Outcome) : Prop := Faithful made o.2 ∧ Later made s made o.2
  have hsame : ∀ answer, P (answer, s) := fun _ => ⟨hs, Later.refl made s⟩
  have hrefused : ∀ r, P (s.refuse r) := fun _ => hsame _
  show P (s.performParser c)
  cases c with
  | new h => exact hs.bindNew h rfl
  | newFor h language =>
    refine withResult_cases hrefused fun l _ => withResult_cases hrefused fun p hp => ?_
    have hserial : p.serial = s.serialCount + 1 := Parser.serial_of_ofLanguage hp
    exact hs.bindNew h hserial
  | newFrom h text =>
    refine withSettings_cases hrefused fun settings => withResult_cases hrefused fun p hp => ?_
    have hserial : p.serial = s.serialCount + 1 := Parser.serial_of_ofLanguage hp
    exact hs.bindNew h hserial
  | setLanguage h language => cases hc
  | setEncoding h encoding => cases hc
  | info h => exact withBound_cases hrefused fun p _ => hsame _
  | reset h => exact withBound_cases hrefused fun p _ => hsame _
  | delete h =>
    refine withBound_cases hrefused fun p _ => ⟨⟨hs.known, ?_, hs.lent, hs.pool⟩, ?_⟩
    · exact fun e he => hs.parsers e (Bindings.mem_entries_unbind.1 he).1
    · exact ⟨Nat.le_refl _, fun _ _ => rfl, rfl⟩
  | parse parser text h reply => exact withBound_cases hrefused fun p _ => hs.addTree h _
  | parseFile parser path h reply =>
    refine withBound_cases hrefused fun p hp => ?_
    -- a parser that was made for the pool has a language, so a file does not give it another one
    have hfits := hs.parsers _ (Bindings.mem_entries_of_get? hp)
    obtain ⟨hserial, hkept⟩ :=
      p.parseFile_snd (fun _ _ _ => reply) s.check s.files (s.treeCount + 1) path
    obtain ⟨hbound, hlater⟩ := hs.bindParser parser
      (p := (p.parseFile (fun _ _ _ => reply) s.check s.files (s.treeCount + 1) path).2)
      ⟨hserial ▸ hfits.serial_le, fun key hkey => hkept key (hfits.isFor key (hserial ▸ hkey))⟩
    obtain ⟨hadded, hlater'⟩ := hbound.addTree h
      (p.parseFile (fun _ _ _ => reply) s.check s.files (s.treeCount + 1) path).1
    exact ⟨hadded, hlater.trans hlater'⟩
  | reparse parser tree h reply =>
    refine withBound_cases hrefused fun p _ => ?_
    exact withBound_cases hrefused fun t _ => hs.addTree h _
  | pooled => exact hsame _

/-- The start of a loan.  The parser is one for the key, and is known as such from now on. -/
theorem lend (hs : Faithful made s) {key : Language × Encoding} {p : Parser} {pool : ParserPool}
    (htake : s.pool.take s.check (s.serialCount + 1) key = .ok (p, pool)) (h : Handle) :
    ∃ made', Faithful made' (s.lendOut h p pool) ∧
      (∀ k, k ≤ s.serialCount → made' k = made k) ∧ made' p.serial = some key ∧ p.IsFor key := by
  have hhanded : ∀ made' : PoolKeys, (∀ k, k ≤ s.serialCount → made' k = made k) →
      (∀ k key, made' k = some key → k ≤ s.serialCount + 1) →
      Fits made' (s.serialCount + 1) p → Faithful made' (s.lendOut h p pool) := by
    intro made' hmade hknown hp
    have hfits : ∀ {q}, Fits made s.serialCount q → Fits made' (s.serialCount + 1) q :=
      fun hq => hq.mono (Nat.le_succ _) hmade
    refine ⟨hknown, ?_, ?_, ?_⟩
    · intro e he
      rcases Bindings.mem_entries_bind.1 he with rfl | ⟨he, -⟩
      · exact hp
      · exact hfits (hs.parsers e he)
    · intro q hq
      rcases List.mem_cons.1 hq with rfl | hq
      · exact hp
      · exact hfits (hs.lent q hq)
    · intro e he
      obtain ⟨hfit, hkey⟩ := hs.pool e (ParserPool.mem_entries_of_take htake he)
      exact ⟨hfits hfit, (hmade _ hfit.serial_le).trans hkey⟩
  rcases ParserPool.take_cases htake with ⟨hidle, -⟩ | ⟨-, -, rfl, -⟩
  · obtain ⟨hfit, hkey⟩ := hs.pool _ (ParserPool.mem_entries_of_idle? hidle)
    refine ⟨made, hhanded made (fun _ _ => rfl) ?_ (hfit.mono (Nat.le_succ _) fun _ _ => rfl),
      fun _ _ => rfl, hkey, hfit.isFor key hkey⟩
    exact fun k key' hk => Nat.le_succ_of_le (hs.known k key' hk)
  · -- a new parser has a new number, under which its key is put down
    let made' : PoolKeys := fun k => if k = s.serialCount + 1 then some key else made k
    have hnew : made' (s.serialCount + 1) = some key := if_pos rfl
    have hold : ∀ k, k ≤ s.serialCount → made' k = made k :=
      fun k hk => if_neg (Nat.ne_of_lt (Nat.lt_succ_of_le hk))
    refine ⟨made', hhanded made' hold ?_ ⟨Nat.le_refl _, ?_⟩, hold, hnew, rfl, rfl⟩
    · intro k key' hk
      by_cases hlast : k = s.serialCount + 1
      · exact Nat.le_of_eq hlast
      · exact Nat.le_succ_of_le (hs.known k key' ((if_neg hlast).symm.trans hk))
    · intro key' hkey
      obtain rfl := Option.some.inj (hnew.symm.trans hkey)
      exact ⟨rfl, rfl⟩

/-- The end of a loan, in which the parser that comes back was made for the key. -/
theorem giveBack (hs : Faithful made s) {key : Language × Encoding} {p : Parser}
    {others : List Parser} (hlent : s.lent = p :: others) (hkey : made p.serial = some key)
    (h : Handle) {before : Option Parser}
    (hbefore : ∀ q, before = some q → Fits made s.serialCount q) :
    Faithful made (s.returnParser key h before) := by
  have hp : Fits made s.serialCount p := by
    refine hs.lent p ?_
    rw [hlent]
    exact List.mem_cons_self
  unfold returnParser
  rw [hlent]
  refine ⟨hs.known, ?_, ?_, ?_⟩
  · intro e he
    cases before with
    | none => exact hs.parsers e (Bindings.mem_entries_unbind.1 he).1
    | some q =>
      rcases Bindings.mem_entries_bind.1 he with rfl | ⟨he, -⟩
      · exact hbefore q rfl
      · exact hs.parsers e he
  · intro q hq
    refine hs.lent q ?_
    rw [hlent]
    exact List.mem_cons_of_mem _ hq
  · intro e he
    rcases ParserPool.mem_entries_put.1 he with rfl | ⟨he, -⟩
    · exact ⟨hp, hkey⟩
    · exact hs.pool e he

end Faithful

/-- After the actions all parsers are still as they were made, and so were those that were handed
out. -/
def StaysFaithful (compiler : QueryCompiler) (made : PoolKeys) (s : Session)
    (actions : List Action) : Prop :=
  ∃ made', Faithful made' (s.afterActions compiler actions) ∧
    Later made s made' (s.afterActions compiler actions) ∧
    ∀ key p, .taken key p ∈ poolEvents compiler s actions → p.IsFor key

namespace StaysFaithful

theorem nil (hs : Faithful made s) : StaysFaithful compiler made s [] :=
  ⟨made, hs, Later.refl made s, by simp [poolEvents]⟩

theorem single {a : Action} (ha : s.poolEvent? a = none)
    (hs : Faithful made (s.act compiler a) ∧ Later made s made (s.act compiler a)) :
    StaysFaithful compiler made s [a] := by
  refine ⟨made, hs.1, hs.2, fun key p hp => ?_⟩
  simp [poolEvents, ha] at hp

theorem append {earlier later : List Action} (h : StaysFaithful compiler made s earlier)
    (hlater : ∀ made', Faithful made' (s.afterActions compiler earlier) →
      StaysFaithful compiler made' (s.afterActions compiler earlier) later) :
    StaysFaithful compiler made s (earlier ++ later) := by
  obtain ⟨made₁, hs₁, hlater₁, hfor₁⟩ := h
  obtain ⟨made₂, hs₂, hlater₂, hfor₂⟩ := hlater made₁ hs₁
  rw [← afterActions_append] at hs₂ hlater₂
  refine ⟨made₂, hs₂, hlater₁.trans hlater₂, ?_⟩
  intro key p hp
  rw [poolEvents_append] at hp
  rcases List.mem_append.1 hp with hp | hp
  · exact hfor₁ key p hp
  · exact hfor₂ key p hp

/-- A loan keeps what its body keeps: the parser that comes back has the number of the one that went
out, and so was made for the same key. -/
theorem loan (hs : Faithful made s) {key : Language × Encoding} {h : Handle} {s₁ : Session}
    (hlend : s.borrowParser key h = .ok s₁) {body : List Action}
    (hbody : ∀ made', Faithful made' s₁ → StaysFaithful compiler made' s₁ body) :
    StaysFaithful compiler made s
      (.lend key h :: (body ++ [.giveBack key h (s.parsers.get? h)])) := by
  obtain ⟨p, pool, htake, rfl⟩ := exists_borrowParser_eq hlend
  obtain ⟨made₁, hs₁, hmade₁, hkey₁, hfor₁⟩ := hs.lend htake h
  obtain ⟨made₂, hs₂, hlater₂, hfor₂⟩ := hbody made₁ hs₁
  let s₁ := s.lendOut h p pool
  let s₂ := s₁.afterActions compiler body
  have hp : p.serial ≤ s₁.serialCount := (hs₁.lent p List.mem_cons_self).serial_le
  have hcount : s.serialCount ≤ s₂.serialCount :=
    Nat.le_trans (Nat.le_succ _) hlater₂.count_le
  have hmade₂ : ∀ k, k ≤ s.serialCount → made₂ k = made k :=
    fun k hk => (hlater₂.made_eq k (Nat.le_succ_of_le hk)).trans (hmade₁ k hk)
  -- the body has left the stack of loans as it was
  have hserials : s₂.lent.map (·.serial) = p.serial :: s.lent.map (·.serial) := hlater₂.serials_eq
  obtain ⟨q, others, hlent, hq, hothers⟩ := List.map_eq_cons_iff.1 hserials
  have hqkey : made₂ q.serial = some key := by
    rw [hq, hlater₂.made_eq _ hp]
    exact hkey₁
  have hbefore : ∀ r, s.parsers.get? h = some r → Fits made₂ s₂.serialCount r :=
    fun r hr => (hs.parsers _ (Bindings.mem_entries_of_get? hr)).mono hcount hmade₂
  refine ⟨made₂, ?_, ?_, ?_⟩
  · rw [afterActions_loan hlend]
    exact hs₂.giveBack hlent hqkey h hbefore
  · rw [afterActions_loan hlend]
    unfold returnParser
    rw [hlent]
    exact ⟨hcount, hmade₂, hothers⟩
  · intro key' p' hp'
    rw [poolEvents_loan hlend htake, hlent] at hp'
    rcases List.mem_cons.1 hp' with hp' | hp'
    · cases hp'
      exact hfor₁
    · rcases List.mem_append.1 hp' with hp' | hp'
      · exact hfor₂ key' p' hp'
      · cases List.mem_singleton.1 hp'

end StaysFaithful

mutual

theorem staysFaithful_courseOf : ∀ (c : Command) (s : Session) (made : PoolKeys), Faithful made s →
    (∀ a ∈ courseOf compiler c s, a.sets = false) →
      StaysFaithful compiler made s (courseOf compiler c s)
  | .parser c, s, made, hs, hsets => by
    rw [courseOf] at hsets ⊢
    exact StaysFaithful.single rfl (hs.performParser (hsets _ List.mem_cons_self))
  | .tree c, s, made, hs, _ => by
    rw [courseOf]
    refine StaysFaithful.single rfl ?_
    obtain ⟨_, _, _, _, hafter⟩ := s.exists_performTree_eq c
    show Faithful made (s.performTree c).2 ∧ Later made s made (s.performTree c).2
    rw [hafter]
    exact hs.of_eq rfl rfl rfl (Nat.le_refl _)
  | .node c, s, made, hs, _ => by
    rw [courseOf]
    refine StaysFaithful.single rfl ?_
    obtain ⟨_, hafter⟩ := s.exists_performNode_eq c
    show Faithful made (s.performNode c).2 ∧ Later made s made (s.performNode c).2
    rw [hafter]
    exact hs.of_eq rfl rfl rfl (Nat.le_refl _)
  | .cursor c, s, made, hs, _ => by
    rw [courseOf]
    refine StaysFaithful.single rfl ?_
    obtain ⟨_, _, hafter⟩ := s.exists_performCursor_eq c
    show Faithful made (s.performCursor c).2 ∧ Later made s made (s.performCursor c).2
    rw [hafter]
    exact hs.of_eq rfl rfl rfl (Nat.le_refl _)
  | .query c, s, made, hs, _ => by
    rw [courseOf]
    refine StaysFaithful.single rfl ?_
    obtain ⟨_, _, _, _, hle, hafter⟩ := exists_performQuery_eq compiler s c
    show Faithful made (s.performQuery compiler c).2 ∧
      Later made s made (s.performQuery compiler c).2
    rw [hafter]
    exact hs.of_eq rfl rfl rfl hle
  | .withParser language encoding h body, s, made, hs, hsets => by
    rcases withParser_cases compiler s language encoding h body with
      ⟨fault, -, -, hcourse⟩ | ⟨l, lending, -, hlend, -, hcourse⟩
    · rw [hcourse]
      exact StaysFaithful.nil hs
    · rw [hcourse] at hsets ⊢
      refine StaysFaithful.loan hs hlend fun made' hs' => ?_
      refine staysFaithful_course body lending made' hs' fun a ha => ?_
      exact hsets a (List.mem_cons_of_mem _ (List.mem_append_left _ ha))

/-- **Nothing is set, nothing changes**, in a run from any session. -/
theorem staysFaithful_course : ∀ (cs : List Command) (s : Session) (made : PoolKeys),
    Faithful made s → (∀ a ∈ course compiler cs s, a.sets = false) →
      StaysFaithful compiler made s (course compiler cs s)
  | [], s, made, hs, _ => by
    rw [course]
    exact StaysFaithful.nil hs
  | c :: cs, s, made, hs, hsets => by
    rw [course] at hsets ⊢
    have hfirst := staysFaithful_courseOf c s made hs
      fun a ha => hsets a (List.mem_append_left _ ha)
    refine hfirst.append fun made' hs' => ?_
    rw [afterActions_courseOf] at hs' ⊢
    exact staysFaithful_course cs _ made' hs' fun a ha => hsets a (List.mem_append_right _ ha)

end

/-! ### What is handed out -/

/-- **The parser that is handed out** for a language and an encoding, anywhere in any run, however
loans are nested and whatever is done during them.  It is the one that was put back last under that
key, as it was then; if none is there it is a new one, for the language and the encoding.  So it is
one for them just if the one that was put back is, which is always so if no command of the run sets
the language or the encoding of a parser. -/
theorem handed_out (compiler : QueryCompiler) (files : FileSystem) (check : LanguageCheck)
    (commands : List Command) (before later : List PoolEvent) (key : Language × Encoding)
    (p : Parser)
    (h : poolEvents compiler (start files check) (course compiler commands (start files check))
      = before ++ .taken key p :: later) :
    (∀ q, PoolEvent.idle? key before = some q → p = q) ∧
    (PoolEvent.idle? key before = none → p.IsFor key) ∧
    (p.IsFor key ↔ ∀ q, PoolEvent.idle? key before = some q → q.IsFor key) ∧
    ((∀ q, .returned key q ∈ before → q.IsFor key) → p.IsFor key) ∧
    ((∀ a ∈ course compiler commands (start files check), a.sets = false) → p.IsFor key) := by
  obtain ⟨hidle, hnew⟩ := (PoolAgrees.start files check).taken h
  rw [List.nil_append] at hidle hnew
  have hiff : p.IsFor key ↔ ∀ q, PoolEvent.idle? key before = some q → q.IsFor key := by
    constructor
    · intro hp q hq
      rw [← hidle q hq]
      exact hp
    · intro hreturned
      cases hq : PoolEvent.idle? key before with
      | none => exact hnew hq
      | some q =>
        rw [hidle q hq]
        exact hreturned q hq
  refine ⟨hidle, hnew, hiff, ?_, ?_⟩
  · exact fun hreturned =>
      hiff.2 fun q hq => hreturned q (PoolEvent.returned_mem_of_idle? hq)
  · intro hsets
    obtain ⟨made, -, -, hfor⟩ :=
      staysFaithful_course commands (start files check) _ (.start files check) hsets
    refine hfor key p ?_
    rw [h]
    exact List.mem_append_right _ List.mem_cons_self

/-- The parser of a loan within a loan is a new one.  When both are back the next loan gets the one
that came back last. -/
theorem handed_out_nested :
    let compiler : QueryCompiler := fun _ p => .ok ⟨[p], []⟩
    let s := start FileStore.empty.system fun _ => none
    let key := (.javascript, .utf8)
    let commands : List Command :=
      [.withParser "js" .utf8 "outer"
        [.parser (.parse "outer" "a" "tree" none), .withParser "js" .utf8 "inner" []],
        .withParser "js" .utf8 "next" []]
    let outer : Parser := ⟨1, some .javascript, .utf8⟩
    let inner : Parser := ⟨2, some .javascript, .utf8⟩
    let before : List PoolEvent :=
      [.taken key outer, .taken key inner, .returned key inner, .returned key outer]
    poolEvents compiler s (course compiler commands s)
      = before ++ .taken key outer :: [.returned key outer] ∧
    PoolEvent.idle? key before = some outer ∧ outer.IsFor key := by
  intro compiler s key commands outer inner before
  have hevents : poolEvents compiler s (course compiler commands s)
      = before ++ .taken key outer :: [.returned key outer] := by decide +kernel
  have hsets : ∀ a ∈ course compiler commands s, a.sets = false := by decide +kernel
  obtain ⟨-, -, -, -, hfor⟩ := handed_out compiler FileStore.empty.system (fun _ => none) commands
    before _ key outer hevents
  exact ⟨hevents, by decide +kernel, hfor hsets⟩

/-- A parser that is put back with another encoding is handed out with this encoding by the next
loan, which asked for the one it had before. -/
theorem handed_out_changed :
    let compiler : QueryCompiler := fun _ p => .ok ⟨[p], []⟩
    let s := start FileStore.empty.system fun _ => none
    let key := (.javascript, .utf8)
    let commands : List Command :=
      [.withParser "js" .utf8 "p" [.parser (.setEncoding "p" .utf16)],
        .withParser "js" .utf8 "p" [.parser (.info "p")]]
    let changed : Parser := ⟨1, some .javascript, .utf16⟩
    (∃ before later, poolEvents compiler s (course compiler commands s)
      = before ++ .taken key changed :: later) ∧
    (run compiler commands s).1 = [.answers [.done], .answers [.parser changed]] ∧
    ¬ changed.IsFor key := by
  intro compiler s key commands changed
  refine ⟨⟨[.taken key ⟨1, some .javascript, .utf8⟩, .returned key changed],
    [.returned key changed], ?_⟩, rfl, ?_⟩
  · decide +kernel
  · rintro ⟨-, hencoding⟩
    cases hencoding

end Session

end SyntaxView
