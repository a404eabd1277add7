import Mathlib.Data.List.Dedup
import SyntaxView.Proofs.PooledParsers

/-!
# Parsers on loan

While a loan lasts its parser is out of the pool, so a loan within it gets another parser, also
where it asks for the same key.  At every moment of every run the parsers that are out are different
ones, none of them lies in the pool, and the pool has no key twice; and when a loan is over, the
keys in the pool are those from before and those of all loans that were made in it.  A loan that is
refused changes nothing (`Session.loans_apart`).

Two ways of looking at a run carry this.

* Action by action: `Session.Apart` ties the parsers on loan to the comings and goings so far
  (`PoolEvent.out`) and keeps all numbers apart, those on loan and those in the pool.  A parser that
  goes out or comes back changes sides, and a new one has a new number (`Apart.act`).
* Command by command: a loan takes its key out of the pool and puts it back at its end, so its body
  may be looked at as if it stood alone (`Uses.loan`).  What a list of commands adds to the keys in
  the pool is therefore told by the commands and the engine's verdicts (`Command.loanKeys`), in any
  session that has parsers for accepted languages only in its pool (`Accepted`).
-/

namespace SyntaxView

/-! ### Who is out -/

namespace PoolEvent

/-- Who is out after an event, by number, given who was before.  Loans are nested, so the parser
that comes back is the one that went out last. -/
def nextOut (out : List Nat) : PoolEvent → List Nat
  | taken _ p => p.serial :: out
  | returned _ _ => out.tail

/-- The numbers of the parsers that are out after a number of events, the one taken last first. -/
def out (events : List PoolEvent) : List Nat := events.foldl nextOut []

/-- The keys for which parsers have been handed out, in order. -/
def handedKeys (events : List PoolEvent) : List (Language × Encoding) :=
  events.filterMap fun
    | taken key _ => some key
    | returned _ _ => none

theorem out_append_singleton (events : List PoolEvent) (e : PoolEvent) :
    out (events ++ [e]) = nextOut (out events) e := by
  rw [out, List.foldl_append]
  rfl

theorem handedKeys_append (events later : List PoolEvent) :
    handedKeys (events ++ later) = handedKeys events ++ handedKeys later :=
  List.filterMap_append

end PoolEvent

/-! ### The keys of a pool -/

namespace ParserPool

/-- The keys under which a parser lies in the pool. -/
def keys (pool : ParserPool) : List (Language × Encoding) := pool.entries.map (·.1)

theorem mem_keys_iff {pool : ParserPool} {key : Language × Encoding} :
    key ∈ pool.keys ↔ pool.idle? key ≠ none := by
  rw [idle?, ne_eq, List.lookup_eq_none_iff]
  constructor
  · intro h hall
    obtain ⟨e, he, rfl⟩ := List.mem_map.1 h
    have hne := hall e he
    rw [bne_self_eq_false] at hne
    cases hne
  · intro h
    by_contra hkey
    refine h fun e he => ?_
    have hne : key ≠ e.1 := fun heq => hkey (heq ▸ List.mem_map_of_mem he)
    simpa using hne

theorem mem_keys_take {pool pool' : ParserPool} {check : LanguageCheck} {serial : Nat}
    {key k : Language × Encoding} {p : Parser} (h : pool.take check serial key = .ok (p, pool')) :
    k ∈ pool'.keys ↔ k ≠ key ∧ k ∈ pool.keys := by
  rw [mem_keys_iff, idle?_take h, mem_keys_iff]
  by_cases hk : k = key
  · simp [hk]
  · simp [hk]

theorem mem_keys_put {pool : ParserPool} {key k : Language × Encoding} {p : Parser} :
    k ∈ (pool.put key p).keys ↔ k = key ∨ k ∈ pool.keys := by
  rw [mem_keys_iff, idle?_put, mem_keys_iff]
  by_cases hk : k = key
  · simp [hk]
  · simp [hk]

/-- Without one of its parsers a pool has the others, each with its number. -/
theorem sublist_erase (pool : ParserPool) (key : Language × Encoding) :
    (pool.erase key).entries.Sublist pool.entries :=
  List.filter_sublist

theorem nodup_keys_erase {pool : ParserPool} (h : pool.keys.Nodup) (key : Language × Encoding) :
    (pool.erase key).keys.Nodup :=
  h.sublist ((pool.sublist_erase key).map _)

theorem nodup_keys_take {pool pool' : ParserPool} {check : LanguageCheck} {serial : Nat}
    {key : Language × Encoding} {p : Parser} (h : pool.keys.Nodup)
    (htake : pool.take check serial key = .ok (p, pool')) : pool'.keys.Nodup := by
  rcases take_cases htake with ⟨-, rfl⟩ | ⟨-, -, -, rfl⟩
  · exact nodup_keys_erase h key
  · exact h

theorem nodup_keys_put {pool : ParserPool} (h : pool.keys.Nodup) (key : Language × Encoding)
    (p : Parser) : (pool.put key p).keys.Nodup := by
  refine List.nodup_cons.2 ⟨?_, nodup_keys_erase h key⟩
  intro hkey
  obtain ⟨e, he, heq⟩ := List.mem_map.1 hkey
  exact (mem_entries_erase.1 he).2 heq

/-- The parser of a key, and those of all other keys: together they are the pool. -/
theorem perm_erase {pool : ParserPool} (h : pool.keys.Nodup) {key : Language × Encoding}
    {p : Parser} (hidle : pool.idle? key = some p) :
    ((key, p) :: (pool.erase key).entries).Perm pool.entries := by
  obtain ⟨earlier, later, hentries, hearlier⟩ := List.lookup_eq_some_iff.1 hidle
  have hlater : ∀ e ∈ later, e.1 ≠ key := by
    intro e he heq
    rw [keys, hentries, List.map_append, List.map_cons] at h
    have hcons := (List.nodup_append.1 h).2.1
    exact (List.nodup_cons.1 hcons).1 (List.mem_map.2 ⟨e, he, heq⟩)
  have herase : (pool.erase key).entries = earlier ++ later := by
    rw [erase, hentries, List.filter_append, List.filter_cons]
    have hkeep : ∀ e ∈ earlier ++ later, (e.1 != key) = true := by
      intro e he
      rw [bne_iff_ne]
      rcases List.mem_append.1 he with he | he
      · exact (bne_iff_ne.1 (hearlier e he)).symm
      · exact hlater e he
    rw [bne_self_eq_false, if_neg Bool.false_ne_true, ← List.filter_append,
      List.filter_eq_self.2 hkeep]
  rw [herase, hentries]
  exact List.perm_middle.symm

end ParserPool

namespace Session

variable {compiler : QueryCompiler} {s : Session}

/-! ### Commands between the ends of a loan -/

/-- A command on parsers changes no number of a parser on loan, and uses up numbers at most. -/
theorem serials_performParser (s : Session) (c : ParserCommand) :
    (s.performParser c).2.lent.map (·.serial) = s.lent.map (·.serial) ∧
      s.serialCount ≤ (s.performParser c).2.serialCount := by
  let P (o : Outcome) : Prop :=
    o.2.lent.map (·.serial) = s.lent.map (·.serial) ∧ s.serialCount ≤ o.2.serialCount
  have hsame : ∀ answer, P (answer, s) := fun _ => ⟨rfl, Nat.le_refl _⟩
  have hrefused : ∀ r, P (s.refuse r) := fun _ => hsame _
  have hnew : ∀ answer h p,
      P (answer, ({ s with serialCount := s.serialCount + 1 } : Session).bindParser h p) :=
    fun _ h p => ⟨serials_bindParser _ h p, Nat.le_succ _⟩
  have hset : ∀ answer h p, P (answer, s.bindParser h p) :=
    fun _ h p => ⟨s.serials_bindParser h p, Nat.le_refl _⟩
  have hadd : ∀ s' : Session, P (.done, s') → ∀ h result, P (s'.addTree h result) := by
    intro s' hs' h result
    refine withResult_cases (fun _ => hs') fun t _ => ?_
    obtain ⟨_, _, _, _, hdrop⟩ := exists_dropTree_eq { s' with treeCount := s'.treeCount + 1 } h
    show P (_, Session.bindTree _ h t)
    rw [bindTree, hdrop]
    exact hs'
  show P (s.performParser c)
  cases c with
  | new h => exact hnew _ h _
  | newFor h language =>
    refine withResult_cases hrefused fun l _ => ?_
    exact withResult_cases hrefused fun p _ => hnew _ h _
  | newFrom h text =>
    refine withSettings_cases hrefused fun settings => ?_
    exact withResult_cases hrefused fun p _ => hnew _ h _
  | setLanguage h language =>
    refine withBound_cases hrefused fun p _ => withResult_cases hrefused fun l _ => ?_
    exact withResult_cases hrefused fun p _ => hset _ h _
  | setEncoding h encoding => exact withBound_cases hrefused fun p _ => hset _ h _
  | info h => exact withBound_cases hrefused fun p _ => hsame _
  | reset h => exact withBound_cases hrefused fun p _ => hsame _
  | delete h => exact withBound_cases hrefused fun p _ => ⟨rfl, Nat.le_refl _⟩
  | parse parser text h reply =>
    exact withBound_cases hrefused fun p _ => hadd s (hsame _) h _
  | parseFile parser path h reply =>
    exact withBound_cases hrefused fun p _ => hadd _ (hset _ parser _) h _
  | reparse parser tree h reply =>
    refine withBound_cases hrefused fun p _ => withBound_cases hrefused fun t _ => ?_
    exact hadd s (hsame _) h _
  | pooled => exact hsame _

/-! ### Action by action -/

/-- The numbers of all parsers of the pool, those on loan first. -/
def poolSerials (s : Session) : List Nat :=
  s.lent.map (·.serial) ++ s.pool.entries.map (·.2.serial)

/-- The parsers on loan are those that the events have left out, and all parsers of the pool are
different ones, with numbers that have been given out. -/
structure Apart (s : Session) (events : List PoolEvent) : Prop where
  out_eq : s.lent.map (·.serial) = PoolEvent.out events
  nodup : s.poolSerials.Nodup
  known : ∀ k ∈ s.poolSerials, k ≤ s.serialCount
  keys : s.pool.keys.Nodup

namespace Apart

variable {events : List PoolEvent}

theorem start (files : FileSystem) (check : LanguageCheck) : Apart (.start files check) [] where
  out_eq := rfl
  nodup := List.nodup_nil
  known := by simp [poolSerials, Session.start, ParserPool.empty]
  keys := List.nodup_nil

/-- Only the numbers on loan, the pool and the numbers given out matter. -/
theorem of_eq (hs : Apart s events) {s' : Session}
    (hlent : s'.lent.map (·.serial) = s.lent.map (·.serial)) (hpool : s'.pool = s.pool)
    (hcount : s.serialCount ≤ s'.serialCount) : Apart s' (events ++ []) := by
  have hserials : s'.poolSerials = s.poolSerials := by rw [poolSerials, poolSerials, hlent, hpool]
  refine ⟨?_, ?_, ?_, ?_⟩
  · rw [List.append_nil, hlent]
    exact hs.out_eq
  · rw [hserials]
    exact hs.nodup
  · rw [hserials]
    exact fun k hk => Nat.le_trans (hs.known k hk) hcount
  · rw [hpool]
    exact hs.keys

/-- **The start of a loan**: a parser of the pool goes out, or a new one with a new number. -/
theorem lend (hs : Apart s events) {key : Language × Encoding} {p : Parser} {pool : ParserPool}
    (htake : s.pool.take s.check (s.serialCount + 1) key = .ok (p, pool)) (h : Handle) :
    Apart (s.lendOut h p pool) (events ++ [.taken key p]) := by
  have hout : (p :: s.lent).map (·.serial) = PoolEvent.out (events ++ [.taken key p]) := by
    rw [PoolEvent.out_append_singleton, ← hs.out_eq]
    rfl
  have hkeys : pool.keys.Nodup := ParserPool.nodup_keys_take hs.keys htake
  rcases ParserPool.take_cases htake with ⟨hidle, rfl⟩ | ⟨-, -, rfl, rfl⟩
  · -- the numbers are the same as before, in another order
    have hserials : ((p :: s.lent).map (·.serial)
        ++ (s.pool.erase key).entries.map (·.2.serial)).Perm s.poolSerials := by
      have hperm := (ParserPool.perm_erase hs.keys hidle).map (·.2.serial)
      exact List.perm_middle.symm.trans (hperm.append_left _)
    refine ⟨hout, hserials.nodup_iff.2 hs.nodup, ?_, hkeys⟩
    exact fun k hk => Nat.le_succ_of_le (hs.known k (hserials.mem_iff.1 hk))
  · refine ⟨hout, List.nodup_cons.2 ⟨fun hmem => ?_, hs.nodup⟩, fun k hk => ?_, hkeys⟩
    · have hle : s.serialCount + 1 ≤ s.serialCount := hs.known _ hmem
      omega
    · rcases List.mem_cons.1 hk with rfl | hk
      · exact Nat.le_refl _
      · exact Nat.le_succ_of_le (hs.known k hk)

/-- **The end of a loan**: the parser that went out last lies in the pool again.  One that lay there
under its key is given up. -/
theorem giveBack (hs : Apart s events) (key : Language × Encoding) (h : Handle)
    (before : Option Parser) :
    Apart (s.returnParser key h before)
      (events ++ (s.lent.head?.map (.returned key)).toList) := by
  cases hlent : s.lent with
  | nil =>
    have hafter : s.returnParser key h before = { s with parsers := s.parsers.set h before } := by
      rw [returnParser, hlent]
    rw [hafter]
    exact hs.of_eq rfl rfl (Nat.le_refl _)
  | cons p others =>
    have hafter : s.returnParser key h before = { s with
        pool := s.pool.put key p, lent := others, parsers := s.parsers.set h before } := by
      rw [returnParser, hlent]
    have hout : others.map (·.serial) = PoolEvent.out (events ++ [.returned key p]) := by
      rw [PoolEvent.out_append_singleton, ← hs.out_eq, hlent]
      rfl
    -- the number of the parser moves behind those still on loan, and some numbers may be gone
    have hserials : ∃ kept : List Nat,
        (s.returnParser key h before).poolSerials.Perm kept ∧ kept.Sublist s.poolSerials := by
      rw [hafter]
      refine ⟨p.serial :: (others.map (·.serial)
        ++ (s.pool.erase key).entries.map (·.2.serial)), List.perm_middle, ?_⟩
      rw [poolSerials, hlent]
      have hsub := ((s.pool.sublist_erase key).map fun e => e.2.serial)
      exact (hsub.append_left (others.map (·.serial))).cons_cons p.serial
    obtain ⟨kept, hperm, hsub⟩ := hserials
    refine ⟨?_, hperm.nodup_iff.2 (hs.nodup.sublist hsub), ?_, ?_⟩
    · rw [hafter]
      exact hout
    · intro k hk
      rw [hafter]
      exact hs.known k (hsub.subset (hperm.mem_iff.1 hk))
    · rw [hafter]
      exact ParserPool.nodup_keys_put hs.keys key p

/-- **One action.** -/
theorem act (hs : Apart s events) (a : Action) :
    Apart (s.act compiler a) (events ++ (s.poolEvent? a).toList) := by
  cases a with
  | parser c =>
    obtain ⟨hlent, hcount⟩ := s.serials_performParser c
    obtain ⟨_, _, _, _, _, _, _, _, hafter⟩ := s.exists_performParser_eq c
    have hpool : (s.performParser c).2.pool = s.pool := by rw [hafter]
    exact hs.of_eq hlent hpool hcount
  | tree c =>
    obtain ⟨_, _, _, _, hafter⟩ := s.exists_performTree_eq c
    show Apart (s.performTree c).2 (events ++ [])
    rw [hafter]
    exact hs.of_eq rfl rfl (Nat.le_refl _)
  | node c =>
    obtain ⟨_, hafter⟩ := s.exists_performNode_eq c
    show Apart (s.performNode c).2 (events ++ [])
    rw [hafter]
    exact hs.of_eq rfl rfl (Nat.le_refl _)
  | cursor c =>
    obtain ⟨_, _, hafter⟩ := s.exists_performCursor_eq c
    show Apart (s.performCursor c).2 (events ++ [])
    rw [hafter]
    exact hs.of_eq rfl rfl (Nat.le_refl _)
  | query c =>
    obtain ⟨_, _, _, _, hcount, hafter⟩ := exists_performQuery_eq compiler s c
    show Apart (s.performQuery compiler c).2 (events ++ [])
    rw [hafter]
    exact hs.of_eq rfl rfl hcount
  | lend key h =>
    rcases lend_cases compiler s key h with ⟨hafter, hevent⟩ | ⟨p, pool, htake, hafter, hevent⟩
    · rw [hafter, hevent]
      exact hs.of_eq rfl rfl (Nat.le_refl _)
    · rw [hafter, hevent]
      exact hs.lend htake h
  | giveBack key h before => exact hs.giveBack key h before

/-- **Any number of actions.** -/
theorem afterActions (hs : Apart s events) (actions : List Action) :
    Apart (s.afterActions compiler actions) (events ++ poolEvents compiler s actions) := by
  induction actions generalizing s events with
  | nil =>
    rw [poolEvents, List.append_nil]
    exact hs
  | cons a actions ih =>
    rw [poolEvents, ← List.append_assoc]
    exact ih (hs.act a)

end Apart

end Session

/-! ### Command by command -/

namespace Command

mutual

/-- The keys of the loans of a command, itself included.  One for an unknown language or for one
that the engine refuses is not made, and so are not those in it. -/
def loanKeys (check : LanguageCheck) : Command → List (Language × Encoding)
  | .withParser language encoding _ body =>
    match Language.ofName language with
    | .error _ => []
    | .ok l =>
      match check l with
      | some _ => []
      | none => (l, encoding) :: loanKeysAll check body
  | .parser _ | .tree _ | .node _ | .cursor _ | .query _ => []

/-- The keys of the loans of several commands. -/
def loanKeysAll (check : LanguageCheck) : List Command → List (Language × Encoding)
  | [] => []
  | c :: cs => c.loanKeys check ++ loanKeysAll check cs

end

end Command

namespace Session

variable {compiler : QueryCompiler} {s : Session}

/-- No parser in the pool is for a language that the engine refuses. -/
def Accepted (s : Session) : Prop := ∀ key ∈ s.pool.keys, s.check key.1 = none

/-- In the course of the actions loans for the keys `used` are made, in this order, and all of them
are over at the end. -/
structure Uses (compiler : QueryCompiler) (used : List (Language × Encoding)) (s : Session)
    (actions : List Action) : Prop where
  check_eq : (s.afterActions compiler actions).check = s.check
  serials_eq : (s.afterActions compiler actions).lent.map (·.serial) = s.lent.map (·.serial)
  mem_keys_iff : ∀ key,
    key ∈ (s.afterActions compiler actions).pool.keys ↔ key ∈ s.pool.keys ∨ key ∈ used
  accepted : ∀ key ∈ used, s.check key.1 = none
  handed_eq : PoolEvent.handedKeys (poolEvents compiler s actions) = used

namespace Uses

variable {used : List (Language × Encoding)}

theorem nil (s : Session) : Uses compiler [] s [] where
  check_eq := rfl
  serials_eq := rfl
  mem_keys_iff := fun _ => (or_iff_left List.not_mem_nil).symm
  accepted := nofun
  handed_eq := rfl

/-- An action that leaves the pool and the loans alone. -/
theorem single {a : Action} (hevent : s.poolEvent? a = none)
    (hcheck : (s.act compiler a).check = s.check)
    (hlent : (s.act compiler a).lent.map (·.serial) = s.lent.map (·.serial))
    (hpool : (s.act compiler a).pool = s.pool) : Uses compiler [] s [a] where
  check_eq := hcheck
  serials_eq := hlent
  mem_keys_iff := by
    intro key
    show key ∈ (s.act compiler a).pool.keys ↔ _
    rw [hpool]
    exact (or_iff_left List.not_mem_nil).symm
  accepted := nofun
  handed_eq := by
    rw [poolEvents, hevent]
    rfl

theorem append {used₁ used₂ : List (Language × Encoding)} {earlier later : List Action}
    (h₁ : Uses compiler used₁ s earlier)
    (h₂ : Uses compiler used₂ (s.afterActions compiler earlier) later) :
    Uses compiler (used₁ ++ used₂) s (earlier ++ later) := by
  refine ⟨?_, ?_, fun key => ?_, fun key hkey => ?_, ?_⟩
  · rw [afterActions_append, h₂.check_eq, h₁.check_eq]
  · rw [afterActions_append, h₂.serials_eq, h₁.serials_eq]
  · rw [afterActions_append, h₂.mem_keys_iff, h₁.mem_keys_iff, List.mem_append, or_assoc]
  · rcases List.mem_append.1 hkey with hkey | hkey
    · exact h₁.accepted key hkey
    · rw [← h₁.check_eq]
      exact h₂.accepted key hkey
  · rw [poolEvents_append, PoolEvent.handedKeys_append, h₁.handed_eq, h₂.handed_eq]

/-- **A loan** adds its own key to those that its body uses: whether or not the key was in the pool,
it is not there while the loan lasts, and it is there at the end. -/
theorem loan {key : Language × Encoding} {h : Handle} {lending : Session} {body : List Action}
    (hlend : s.borrowParser key h = .ok lending) (hcheck : s.check key.1 = none)
    (hbody : Uses compiler used lending body) (before : Option Parser) :
    Uses compiler (key :: used) s (.lend key h :: (body ++ [.giveBack key h before])) := by
  obtain ⟨p, pool, htake, rfl⟩ := exists_borrowParser_eq hlend
  obtain ⟨q, others, hlent, -, hothers⟩ := List.map_eq_cons_iff.1 hbody.serials_eq
  have hafter : s.afterActions compiler (.lend key h :: (body ++ [.giveBack key h before])) = _ :=
    afterActions_loan hlend body before
  rw [returnParser, hlent] at hafter
  refine ⟨?_, ?_, fun k => ?_, ?_, ?_⟩
  · rw [hafter]
    exact hbody.check_eq
  · rw [hafter]
    exact hothers
  · have hout : k ∈ (s.lendOut h p pool).pool.keys ↔ k ≠ key ∧ k ∈ s.pool.keys :=
      ParserPool.mem_keys_take htake
    rw [hafter, ParserPool.mem_keys_put, hbody.mem_keys_iff, hout, List.mem_cons]
    by_cases hk : k = key
    · simp [hk]
    · simp [hk]
  · rintro k (_ | ⟨_, hk⟩)
    · exact hcheck
    · exact hbody.accepted k hk
  · rw [poolEvents_loan hlend htake, hlent]
    show key :: PoolEvent.handedKeys (_ ++ [.returned key q]) = _
    rw [PoolEvent.handedKeys_append, hbody.handed_eq]
    exact congrArg (key :: ·) (List.append_nil used)

/-- After loans for accepted languages the pool has none but parsers for accepted languages. -/
theorem accepted_after {actions : List Action} (h : Uses compiler used s actions)
    (hs : s.Accepted) : (s.afterActions compiler actions).Accepted := by
  intro key hkey
  rw [h.check_eq]
  rcases (h.mem_keys_iff key).1 hkey with hkey | hkey
  · exact hs key hkey
  · exact h.accepted key hkey

end Uses

/-- A loan for which a parser is to be had is one for an accepted language, and leaves none but
parsers for accepted languages in the pool. -/
theorem Accepted.lend (hs : s.Accepted) {key : Language × Encoding} {h : Handle}
    {lending : Session} (hlend : s.borrowParser key h = .ok lending) :
    s.check key.1 = none ∧ lending.check = s.check ∧ lending.Accepted := by
  obtain ⟨p, pool, htake, rfl⟩ := exists_borrowParser_eq hlend
  refine ⟨?_, rfl, fun k hk => hs k (ParserPool.mem_keys_take htake |>.1 hk).2⟩
  rcases ParserPool.take_cases htake with ⟨hidle, -⟩ | ⟨-, hcheck, -⟩
  · refine hs key (ParserPool.mem_keys_iff.2 ?_)
    rw [hidle]
    nofun
  · exact hcheck

mutual

theorem uses_courseOf : ∀ (c : Command) (s : Session), s.Accepted →
    Uses compiler (c.loanKeys s.check) s (courseOf compiler c s)
  | .parser c, s, _ => by
    rw [Command.loanKeys, courseOf]
    obtain ⟨_, _, _, _, _, _, _, _, hafter⟩ := s.exists_performParser_eq c
    have hsame : (s.performParser c).2.check = s.check ∧ (s.performParser c).2.pool = s.pool := by
      rw [hafter]
      exact ⟨rfl, rfl⟩
    exact .single rfl hsame.1 (s.serials_performParser c).1 hsame.2
  | .tree c, s, _ => by
    rw [Command.loanKeys, courseOf]
    obtain ⟨_, _, _, _, hafter⟩ := s.exists_performTree_eq c
    have hact : s.act compiler (.tree c) = _ := hafter
    refine .single rfl ?_ ?_ ?_ <;> rw [hact]
  | .node c, s, _ => by
    rw [Command.loanKeys, courseOf]
    obtain ⟨_, hafter⟩ := s.exists_performNode_eq c
    have hact : s.act compiler (.node c) = _ := hafter
    refine .single rfl ?_ ?_ ?_ <;> rw [hact]
  | .cursor c, s, _ => by
    rw [Command.loanKeys, courseOf]
    obtain ⟨_, _, hafter⟩ := s.exists_performCursor_eq c
    have hact : s.act compiler (.cursor c) = _ := hafter
    refine .single rfl ?_ ?_ ?_ <;> rw [hact]
  | .query c, s, _ => by
    rw [Command.loanKeys, courseOf]
    obtain ⟨_, _, _, _, -, hafter⟩ := exists_performQuery_eq compiler s c
    have hact : s.act compiler (.query c) = _ := hafter
    refine .single rfl ?_ ?_ ?_ <;> rw [hact]
  | .withParser language encoding h body, s, hs => by
    rw [Command.loanKeys]
    rcases withParser_cases compiler s language encoding h body with
      ⟨fault, hrefused, -, hcourse⟩ | ⟨l, lending, hlanguage, hlend, -, hcourse⟩
    · rw [hcourse]
      rcases hrefused with hlanguage | ⟨l, hlanguage, hlend⟩
      · rw [hlanguage]
        exact .nil s
      · rw [borrowParser_eq_error_iff, ParserPool.take_eq_error_iff] at hlend
        obtain ⟨-, remark, hcheck, -⟩ := hlend
        rw [hlanguage]
        dsimp only
        rw [hcheck]
        exact .nil s
    · obtain ⟨hcheck, hsame, hlending⟩ := hs.lend hlend
      have hbody := uses_course body lending hlending
      rw [hsame] at hbody
      rw [hcourse, hlanguage]
      dsimp only
      rw [hcheck]
      exact hbody.loan hlend hcheck _

/-- **The keys of a run**, from any session with an accepted pool. -/
theorem uses_course : ∀ (cs : List Command) (s : Session), s.Accepted →
    Uses compiler (Command.loanKeysAll s.check cs) s (course compiler cs s)
  | [], s, _ => by
    rw [Command.loanKeysAll, course]
    exact .nil s
  | c :: cs, s, hs => by
    have hfirst := uses_courseOf c s hs
    have hrest := uses_course cs _ (hfirst.accepted_after hs)
    rw [hfirst.check_eq] at hrest
    rw [Command.loanKeysAll, course, ← afterActions_courseOf]
    exact hfirst.append hrest

end

theorem run_concat : ∀ (cs : List Command) (c : Command) (s : Session),
    (run compiler (cs ++ [c]) s).2 = (step compiler c (run compiler cs s).2).2
  | [], c, s => by simp only [List.nil_append, run]
  | d :: cs, c, s => by
    rw [List.cons_append, run, run]
    exact run_concat cs c (step compiler d s).2

theorem accepted_start (files : FileSystem) (check : LanguageCheck) :
    (start files check).Accepted := nofun

/-- After a run nobody is out, and the pool has each key that was used once. -/
theorem pool_after_run (compiler : QueryCompiler) (files : FileSystem) (check : LanguageCheck)
    (cs : List Command) :
    let s := (run compiler cs (start files check)).2
    s.lent = [] ∧ s.pool.keys.Perm (Command.loanKeysAll check cs).dedup ∧ s.check = check ∧
      s.Accepted := by
  intro s
  have huses : Uses compiler (Command.loanKeysAll check cs) (start files check) _ :=
    uses_course cs (start files check) (accepted_start files check)
  have hapart : Apart ((start files check).afterActions compiler
      (course compiler cs (start files check))) _ := (Apart.start files check).afterActions _
  have hs : (start files check).afterActions compiler (course compiler cs (start files check))
      = s := afterActions_course cs _
  have hkeys := huses.mem_keys_iff
  have hserials := huses.serials_eq
  have hcheck := huses.check_eq
  have haccepted := huses.accepted_after (accepted_start files check)
  rw [hs] at hapart hkeys hserials hcheck haccepted
  refine ⟨List.map_eq_nil_iff.1 hserials, ?_, hcheck, haccepted⟩
  refine (List.perm_ext_iff_of_nodup hapart.keys (List.nodup_dedup _)).2 fun key => ?_
  rw [hkeys, List.mem_dedup]
  exact or_iff_right List.not_mem_nil

/-- **When a loan is refused**: the language is unknown, or the engine refuses it and there is no
parser for it in the pool. -/
theorem step_withParser_refused_iff {language : String} {encoding : Encoding} {h : Handle}
    {body : List Command} {fault : Fault} :
    (step compiler (.withParser language encoding h body) s).1 = .refused (.fault fault) ↔
      Language.ofName language = .error fault ∨
        ∃ l remark, Language.ofName language = .ok l ∧ (l, encoding) ∉ s.pool.keys ∧
          s.check l = some remark ∧ fault = .languageRefused l.name remark := by
  have hlend : ∀ l, s.borrowParser (l, encoding) h = .error fault ↔
      ∃ remark, (l, encoding) ∉ s.pool.keys ∧ s.check l = some remark ∧
        fault = .languageRefused l.name remark := by
    intro l
    rw [borrowParser_eq_error_iff, ParserPool.take_eq_error_iff, ParserPool.mem_keys_iff, not_not,
      exists_and_left]
  rw [step]
  cases hlanguage : Language.ofName language with
  | error fault' => simp [refuse]
  | ok l =>
    have hl := hlend l
    cases hborrow : s.borrowParser (l, encoding) h with
    | error fault' =>
      rw [hborrow] at hl
      simpa [refuse, hborrow] using hl
    | ok lending =>
      rw [hborrow] at hl
      simpa [hborrow] using hl

/-- A loan that is refused has no actions and changes nothing. -/
theorem step_withParser_of_refused {language : String} {encoding : Encoding} {h : Handle}
    {body : List Command} {r : Refusal}
    (hr : (step compiler (.withParser language encoding h body) s).1 = .refused r) :
    (step compiler (.withParser language encoding h body) s).2 = s ∧
      courseOf compiler (.withParser language encoding h body) s = [] := by
  rcases withParser_cases compiler s language encoding h body with
    ⟨fault, -, hstep, hcourse⟩ | ⟨l, lending, -, -, hstep, -⟩
  · rw [hstep]
    exact ⟨rfl, hcourse⟩
  · rw [hstep] at hr
    cases hr

/-- **Loans are apart.**  In every run, however loans are nested and whatever is done during them:

* at every moment the parsers that are out, which are those that have been handed out by loans that
  are not over, are different parsers, none of them lies in the pool, and the pool has no key
  twice;
* when a loan that is not within another one is over, nobody is out, the keys in the pool are those
  from before and those of all loans made in it, itself included, which are those for which a parser
  has been handed out, and the number of parsers in the pool is that of the keys used so far;
* a loan is refused just if its language is unknown or the engine refuses it, where there is no
  parser for it in the pool.  Then nothing is changed, so no key is added or lost. -/
theorem loans_apart (compiler : QueryCompiler) (files : FileSystem) (check : LanguageCheck) :
    (∀ (commands : List Command) (count : Nat),
      let s := moment compiler commands (start files check) count
      let held := PoolEvent.out (poolEvents compiler (start files check)
        ((course compiler commands (start files check)).take count))
      s.lent.map (·.serial) = held ∧ held.Nodup ∧
      (∀ e ∈ s.pool.entries, e.2.serial ∉ held) ∧ s.pool.keys.Nodup) ∧
    (∀ (earlier : List Command) (language : String) (encoding : Encoding) (h : Handle)
      (body : List Command),
      let loan := Command.withParser language encoding h body
      let before := (run compiler earlier (start files check)).2
      let after := (step compiler loan before).2
      after.lent = [] ∧
      (∀ key, key ∈ after.pool.keys ↔ key ∈ before.pool.keys ∨ key ∈ loan.loanKeys check) ∧
      loan.loanKeys check
        = PoolEvent.handedKeys (poolEvents compiler before (courseOf compiler loan before)) ∧
      (step compiler (.parser .pooled) after).1
        = .number (Command.loanKeysAll check (earlier ++ [loan])).dedup.length) ∧
    (∀ (s : Session) (language : String) (encoding : Encoding) (h : Handle) (body : List Command),
      let loan := Command.withParser language encoding h body
      (∀ fault, (step compiler loan s).1 = .refused (.fault fault) ↔
        Language.ofName language = .error fault ∨
          ∃ l remark, Language.ofName language = .ok l ∧ (l, encoding) ∉ s.pool.keys ∧
            s.check l = some remark ∧ fault = .languageRefused l.name remark) ∧
      (∀ r, (step compiler loan s).1 = .refused r →
        (step compiler loan s).2 = s ∧ courseOf compiler loan s = [])) := by
  refine ⟨?_, ?_, ?_⟩
  · intro commands count s held
    have hapart : Apart s _ := (Apart.start files check).afterActions _
    have hnodup := hapart.nodup
    rw [poolSerials, List.nodup_append, hapart.out_eq, List.nil_append] at hnodup
    refine ⟨hapart.out_eq, hnodup.1, fun e he hheld => ?_, hapart.keys⟩
    exact hnodup.2.2 _ hheld _ (List.mem_map_of_mem he) rfl
  · intro earlier language encoding h body loan before after
    obtain ⟨-, -, hcheck, haccepted⟩ := pool_after_run compiler files check earlier
    have hloan : Uses compiler (loan.loanKeys check) before (courseOf compiler loan before) := by
      rw [← hcheck]
      exact uses_courseOf loan before haccepted
    have hmem := hloan.mem_keys_iff
    rw [afterActions_courseOf] at hmem
    have hafter : after = (run compiler (earlier ++ [loan]) (start files check)).2 :=
      (run_concat earlier loan (start files check)).symm
    obtain ⟨hlent, hkeys, -, -⟩ := pool_after_run compiler files check (earlier ++ [loan])
    rw [← hafter] at hlent hkeys
    refine ⟨hlent, hmem, hloan.handed_eq.symm, ?_⟩
    have hsize :
        after.pool.size = (Command.loanKeysAll check (earlier ++ [loan])).dedup.length := by
      rw [← hkeys.length_eq, ParserPool.keys, List.length_map, ParserPool.size]
    rw [← hsize, step]
    rfl
  · intro s language encoding h body loan
    exact ⟨fun fault => step_withParser_refused_iff, fun r => step_withParser_of_refused⟩

/-- A loan within one for the same key, followed by one for another key: while the inner one lasts
two parsers are out, and in the end the pool has one for each key.  A loan for an unknown language
is not made, and neither is one for a language that the engine refuses. -/
theorem loans_apart_nested :
    let compiler : QueryCompiler := fun _ p => .ok ⟨[p], []⟩
    let check : LanguageCheck := fun l => if l = .ruby then some "too old" else none
    let loan : Command := .withParser "js" .utf8 "outer"
      [.withParser "js" .utf8 "inner" [.withParser "klingon" .utf8 "unknown" []],
        .withParser "ruby" .utf8 "refused" [.withParser "c" .utf8 "never" []],
        .withParser "py" .utf16 "other" []]
    let s₀ := start FileStore.empty.system check
    let s := moment compiler [loan] s₀ 2
    s.lent.map (·.serial) = [2, 1] ∧ (s.lent.map (·.serial)).Nodup ∧ s.pool.keys.Nodup ∧
    (step compiler (.parser .pooled) (step compiler loan s₀).2).1 = .number 2 ∧
    (step compiler (.withParser "ruby" .utf8 "refused" []) s).1
      = .refused (.fault (.languageRefused "Ruby" "too old")) ∧
    (step compiler (.withParser "ruby" .utf8 "refused" []) s).2 = s := by
  intro compiler check loan s₀ s
  obtain ⟨hmoments, hloans, hrefused⟩ := loans_apart compiler FileStore.empty.system check
  obtain ⟨hheld, hnodup, -, hkeys⟩ := hmoments [loan] 2
  obtain ⟨-, -, -, hpooled⟩ := hloans [] "js" .utf8 "outer"
    [.withParser "js" .utf8 "inner" [.withParser "klingon" .utf8 "unknown" []],
      .withParser "ruby" .utf8 "refused" [.withParser "c" .utf8 "never" []],
      .withParser "py" .utf16 "other" []]
  have hused : (Command.loanKeysAll check [loan]).dedup.length = 2 := by decide +kernel
  obtain ⟨hiff, hunchanged⟩ := hrefused s "ruby" .utf8 "refused" []
  have hruby := (hiff (.languageRefused "Ruby" "too old")).2
    (.inr ⟨.ruby, "too old", rfl, by decide +kernel, rfl, rfl⟩)
  refine ⟨by decide +kernel, ?_, hkeys, ?_, hruby, (hunchanged _ hruby).1⟩
  · rw [hheld]
    exact hnodup
  · rw [← hused]
    exact hpooled

end Session

end SyntaxView
