import SyntaxView.Session.Queries

/-!
# The query cache is transparent

Asking for a query through the cache gives what compiling it anew would give, up to the serial
number; the cache only decides whether the query is a new one or one that was handed out before.
`Session.getOrCompile_transparent` says this of every run of calls, and says which texts the cache
holds after it: those that were asked for with success since the cache was last emptied.

The entries are found under one string for the language and the text, and everything rests on the
two being told apart again (`QueryCache.key_inj`).  `QueryCache.Kept` is what every call keeps true
of the cache, and `Session.query?_callCache` says which entries one call leaves behind; the rest is
an induction over the calls.
-/

namespace SyntaxView

/-! ### Keys -/

namespace Language

theorem colon_not_mem_name (language : Language) : ':' ∉ language.name.toList := by
  cases language <;> decide

theorem find?_name (language : Language) :
    all.find? (fun l => l.name == language.name) = some language := by
  cases language <;> rfl

theorem name_inj {l₁ l₂ : Language} (h : l₁.name = l₂.name) : l₁ = l₂ := by
  have h₁ := find?_name l₁
  rw [h, find?_name l₂] at h₁
  exact (Option.some.inj h₁).symm

end Language

namespace QueryCache

theorem toList_key (language : Language) (source : String) :
    (key language source).toList = language.name.toList ++ ':' :: source.toList := by
  simp [key]

/-- The name of the language is what stands before the first colon, however many the text has. -/
theorem takeWhile_key (language : Language) (source : String) :
    (key language source).toList.takeWhile (· != ':') = language.name.toList := by
  have hname : ∀ c ∈ language.name.toList, (c != ':') = true := by
    intro c hc
    have hne : c ≠ ':' := fun h => language.colon_not_mem_name (h ▸ hc)
    simpa using hne
  rw [toList_key, List.takeWhile_append_of_pos hname]
  simp

theorem key_inj {l₁ l₂ : Language} {p₁ p₂ : String} (h : key l₁ p₁ = key l₂ p₂) :
    l₁ = l₂ ∧ p₁ = p₂ := by
  have hname : l₁.name = l₂.name := by
    rw [← String.toList_inj, ← takeWhile_key l₁ p₁, h, takeWhile_key]
  obtain rfl := Language.name_inj hname
  -- with the same name in front, what is left after the colon is the same too
  have htext := congrArg String.toList h
  rw [toList_key, toList_key] at htext
  have hrest := List.append_cancel_left htext
  exact ⟨rfl, String.toList_inj.1 (List.cons.inj hrest).2⟩

end QueryCache

/-! ### Serial numbers -/

namespace Query

/-- The same query under another serial number. -/
def renumber (serial : Nat) (q : Query) : Query := { q with serial := serial }

theorem compile_renumber (compiler : QueryCompiler) (m n : Nat) (l : Language) (p : String) :
    (compile compiler m l p).map (renumber n) = compile compiler n l p := by
  unfold compile
  by_cases hblank : (Text.trim p.toList).isEmpty = true
  · rw [if_pos hblank, if_pos hblank]
    rfl
  · rw [if_neg hblank, if_neg hblank]
    cases compiler l p <;> rfl

theorem of_compile_eq_ok {compiler : QueryCompiler} {n : Nat} {l : Language} {p : String}
    {q : Query} (h : compile compiler n l p = .ok q) :
    q.serial = n ∧ q.language = l ∧ q.source = p := by
  unfold compile at h
  split at h
  · cases h
  · split at h <;> cases h
    exact ⟨rfl, rfl, rfl⟩

end Query

/-! ### What is true of the cache at all times -/

namespace QueryCache

def keys (cache : QueryCache) : List String := cache.entries.map Prod.fst

/-- The query of a text, if the cache has it. -/
def query? (cache : QueryCache) (language : Language) (source : String) : Option Query :=
  cache.entries.lookup (key language source)

/-- A cache in order, in a session that has given out the serial numbers up to `serials`. -/
structure Kept (compiler : QueryCompiler) (serials : Nat) (cache : QueryCache) : Prop where
  size_le : cache.size ≤ capacity
  nodup : cache.keys.Nodup
  key_eq : ∀ e ∈ cache.entries, e.1 = key e.2.language e.2.source
  compile_eq : ∀ e ∈ cache.entries,
    Query.compile compiler e.2.serial e.2.language e.2.source = .ok e.2
  serial_le : ∀ e ∈ cache.entries, e.2.serial ≤ serials

variable {compiler : QueryCompiler} {serials : Nat} {cache : QueryCache} {l : Language}
  {p : String} {q : Query}

theorem mem_entries_of_query? (h : cache.query? l p = some q) :
    (key l p, q) ∈ cache.entries := by
  obtain ⟨before, after, hsplit, -⟩ := List.lookup_eq_some_iff.1 h
  rw [hsplit]
  exact List.mem_append_right _ List.mem_cons_self

theorem key_mem_keys_iff : key l p ∈ cache.keys ↔ ∃ q, cache.query? l p = some q := by
  rw [← Option.isSome_iff_exists, query?, List.lookup_isSome_iff, keys, List.mem_map]
  simp only [beq_iff_eq, @eq_comm _ (key l p)]

theorem query?_cons_self (entries : List (String × Query)) :
    query? ⟨(key l p, q) :: entries⟩ l p = some q := by
  simp [query?]

theorem query?_cons_of_ne {k : String} (hk : key l p ≠ k) (entries : List (String × Query)) :
    query? ⟨(k, q) :: entries⟩ l p = query? ⟨entries⟩ l p := by
  rw [query?, query?, List.lookup_cons, beq_false_of_ne hk]

theorem size_makeRoom_lt (cache : QueryCache) : cache.makeRoom.size < capacity := by
  unfold makeRoom
  split
  · decide
  · exact Nat.lt_of_not_le ‹_›

/-- Making room loses either every query or none. -/
theorem query?_makeRoom_eq_some (hsize : cache.size ≤ capacity) :
    cache.makeRoom.query? l p = some q ↔ cache.query? l p = some q ∧ cache.size ≠ capacity := by
  unfold makeRoom
  split
  · next hfull =>
    have heq : cache.size = capacity := Nat.le_antisymm hsize hfull
    simp [heq, query?, empty]
  · next hroom =>
    have hne : cache.size ≠ capacity := fun h => hroom (Nat.le_of_eq h.symm)
    simp [hne]

theorem query?_makeRoom_eq_none (hnew : cache.query? l p = none) :
    cache.makeRoom.query? l p = none := by
  unfold makeRoom
  split
  · rfl
  · exact hnew

namespace Kept

theorem empty : Kept compiler serials .empty where
  size_le := Nat.zero_le _
  nodup := List.nodup_nil
  key_eq := by simp [QueryCache.empty]
  compile_eq := by simp [QueryCache.empty]
  serial_le := by simp [QueryCache.empty]

theorem mono (h : Kept compiler serials cache) {more : Nat} (hle : serials ≤ more) :
    Kept compiler more cache :=
  { h with serial_le := fun e he => Nat.le_trans (h.serial_le e he) hle }

theorem makeRoom (h : Kept compiler serials cache) : Kept compiler serials cache.makeRoom := by
  unfold QueryCache.makeRoom
  split
  · exact empty
  · exact h

/-- A query that was not there and that has just been compiled may go in if there is room. -/
theorem insert (h : Kept compiler serials cache) (hroom : cache.size < capacity)
    (hnew : cache.query? l p = none) (hq : Query.compile compiler (serials + 1) l p = .ok q) :
    Kept compiler (serials + 1) ⟨(key l p, q) :: cache.entries⟩ := by
  obtain ⟨hserial, hl, hp⟩ := Query.of_compile_eq_ok hq
  have h' := h.mono (Nat.le_succ serials)
  have hkey : key l p ∉ cache.keys := by
    rw [key_mem_keys_iff, hnew]
    simp
  exact
    { size_le := hroom
      nodup := List.nodup_cons.2 ⟨hkey, h'.nodup⟩
      key_eq := List.forall_mem_cons.2 ⟨by rw [hl, hp], h'.key_eq⟩
      compile_eq := List.forall_mem_cons.2 ⟨by rw [hserial, hl, hp, hq], h'.compile_eq⟩
      serial_le := List.forall_mem_cons.2 ⟨Nat.le_of_eq hserial, h'.serial_le⟩ }

/-- What is found for a text is what the text compiles to. -/
theorem compile_of_query? (h : Kept compiler serials cache) (hq : cache.query? l p = some q) :
    Query.compile compiler q.serial l p = .ok q := by
  have hmem := mem_entries_of_query? hq
  obtain ⟨hl, hp⟩ := key_inj (h.key_eq _ hmem)
  rw [hl, hp]
  exact h.compile_eq _ hmem

end Kept

end QueryCache

/-! ### Calls -/

/-- A call on the query cache. -/
inductive CacheCall where
  | query (language : Language) (source : String)
  | clear
  deriving Repr, DecidableEq

namespace Session

open QueryCache

variable (compiler : QueryCompiler) (s : Session)

/-- What the session answers when it is asked for the query of a text. -/
def answer (language : Language) (source : String) : Except Fault Query :=
  (s.getOrCompile compiler language source).1

/-- The session after a call. -/
def callCache : CacheCall → Session
  | .query language source => (s.getOrCompile compiler language source).2
  | .clear => (s.performQuery compiler .clearCache).2

/-- The session after a run of calls. -/
def afterCalls (calls : List CacheCall) : Session := calls.foldl (callCache compiler) s

/-- Whether a call empties the cache: a request for a text that is not there does so if the cache
is full. -/
def empties : CacheCall → Bool
  | .query language source =>
    (s.cache.query? language source).isNone && s.cache.size == capacity
  | .clear => true

/-- Whether no call of a run empties the cache. -/
def undisturbed : Session → List CacheCall → Bool
  | _, [] => true
  | s, call :: later => !s.empties call && undisturbed (s.callCache compiler call) later

/-- A call for the text `p` answered the query `q`. -/
def Answered (calls : List CacheCall) (l : Language) (p : String) (q : Query) : Prop :=
  ∃ before later, calls = before ++ .query l p :: later ∧
    (s.afterCalls compiler before).answer compiler l p = .ok q

/-- A call for the text `p` answered the query `q`, and the cache was not emptied afterwards. -/
def Held (calls : List CacheCall) (l : Language) (p : String) (q : Query) : Prop :=
  ∃ before later, calls = before ++ .query l p :: later ∧
    (s.afterCalls compiler before).answer compiler l p = .ok q ∧
    undisturbed compiler (s.afterCalls compiler (before ++ [.query l p])) later = true

variable {compiler : QueryCompiler} {s : Session} {call : CacheCall} {calls : List CacheCall}
  {l : Language} {p : String} {q : Query} {fault : Fault}

theorem held_cons : Held compiler s (call :: calls) l p q ↔
    ((call = .query l p ∧ s.answer compiler l p = .ok q) ∧
      undisturbed compiler (s.callCache compiler call) calls = true) ∨
    Held compiler (s.callCache compiler call) calls l p q := by
  constructor
  · rintro ⟨before, later, hsplit, hanswer, hlater⟩
    obtain ⟨rfl, hcalls⟩ | ⟨before, rfl, rfl⟩ := List.cons_eq_append_iff.1 hsplit
    · obtain ⟨rfl, rfl⟩ := List.cons.inj hcalls
      exact .inl ⟨⟨rfl, hanswer⟩, hlater⟩
    · exact .inr ⟨before, later, rfl, hanswer, hlater⟩
  · rintro (⟨⟨rfl, hanswer⟩, hlater⟩ | ⟨before, later, rfl, hanswer, hlater⟩)
    · exact ⟨[], calls, rfl, hanswer, hlater⟩
    · exact ⟨call :: before, later, rfl, hanswer, hlater⟩

theorem answered_cons (h : Answered compiler s (call :: calls) l p q) :
    (call = .query l p ∧ s.answer compiler l p = .ok q) ∨
    Answered compiler (s.callCache compiler call) calls l p q := by
  obtain ⟨before, later, hsplit, hanswer⟩ := h
  obtain ⟨rfl, hcalls⟩ | ⟨before, rfl, rfl⟩ := List.cons_eq_append_iff.1 hsplit
  · obtain ⟨rfl, rfl⟩ := List.cons.inj hcalls
    exact .inl ⟨rfl, hanswer⟩
  · exact .inr ⟨before, later, rfl, hanswer⟩

/-! ### One call -/

theorem getOrCompile_of_query?_eq_some (hq : s.cache.query? l p = some q) :
    s.getOrCompile compiler l p = (.ok q, { s with serialCount := s.serialCount + 1 }) := by
  simp only [query?] at hq
  simp [getOrCompile, freshSerial, QueryCache.getOrCompile, hq]

theorem getOrCompile_of_compile_eq_error (hnew : s.cache.query? l p = none)
    (herr : Query.compile compiler (s.serialCount + 1) l p = .error fault) :
    s.getOrCompile compiler l p =
      (.error fault,
        { s with serialCount := s.serialCount + 1, cache := s.cache.makeRoom }) := by
  simp only [query?] at hnew
  simp [getOrCompile, freshSerial, QueryCache.getOrCompile, hnew, herr]

theorem getOrCompile_of_compile_eq_ok (hnew : s.cache.query? l p = none)
    (hq : Query.compile compiler (s.serialCount + 1) l p = .ok q) :
    s.getOrCompile compiler l p =
      (.ok q,
        { s with
          serialCount := s.serialCount + 1
          cache := ⟨(key l p, q) :: s.cache.makeRoom.entries⟩ }) := by
  simp only [query?] at hnew
  simp [getOrCompile, freshSerial, QueryCache.getOrCompile, hnew, hq]

/-- A text that is not in the cache is compiled under the next serial number. -/
theorem answer_of_query?_eq_none (hnew : s.cache.query? l p = none) :
    s.answer compiler l p = Query.compile compiler (s.serialCount + 1) l p := by
  cases hq : Query.compile compiler (s.serialCount + 1) l p with
  | error fault => rw [answer, getOrCompile_of_compile_eq_error hnew hq]
  | ok q => rw [answer, getOrCompile_of_compile_eq_ok hnew hq]

/-- A call keeps the cache in order. -/
theorem kept_callCache (h : Kept compiler s.serialCount s.cache) (call : CacheCall) :
    Kept compiler (s.callCache compiler call).serialCount (s.callCache compiler call).cache := by
  have hroom := h.makeRoom
  cases call with
  | clear => exact .empty
  | query l p =>
    rw [callCache]
    cases hfound : s.cache.query? l p with
    | some q =>
      rw [getOrCompile_of_query?_eq_some hfound]
      exact h.mono (Nat.le_succ _)
    | none =>
      cases hq : Query.compile compiler (s.serialCount + 1) l p with
      | error fault =>
        rw [getOrCompile_of_compile_eq_error hfound hq]
        exact hroom.mono (Nat.le_succ _)
      | ok q =>
        rw [getOrCompile_of_compile_eq_ok hfound hq]
        exact hroom.insert (size_makeRoom_lt _) (query?_makeRoom_eq_none hfound) hq

/-- The entries after a call: the one it asked for, if it was answered, and all that were there
before, unless it emptied the cache. -/
theorem query?_callCache (h : Kept compiler s.serialCount s.cache) :
    (s.callCache compiler call).cache.query? l p = some q ↔
      (call = .query l p ∧ s.answer compiler l p = .ok q) ∨
      (s.cache.query? l p = some q ∧ s.empties call = false) := by
  cases call with
  | clear => simp [callCache, performQuery, empties, QueryCache.empty, query?]
  | query l' p' =>
    cases hfound : s.cache.query? l' p' with
    | some q' =>
      -- the text is there, so the cache stays as it is
      have hempties : s.empties (.query l' p') = false := by simp [empties, hfound]
      rw [callCache, getOrCompile_of_query?_eq_some hfound]
      constructor
      · exact fun hq => .inr ⟨hq, hempties⟩
      · rintro (⟨hcall, hanswer⟩ | ⟨hq, -⟩)
        · obtain ⟨rfl, rfl⟩ := CacheCall.query.inj hcall
          rw [answer, getOrCompile_of_query?_eq_some hfound] at hanswer
          exact hfound.trans (congrArg some (Except.ok.inj hanswer))
        · exact hq
    | none =>
      -- room is made before it is known whether the text compiles, so a fault may empty the cache
      have hempties : s.empties (.query l' p') = false ↔ s.cache.size ≠ capacity := by
        simp [empties, hfound]
      rw [hempties, ← query?_makeRoom_eq_some h.size_le, callCache]
      cases hcompile : Query.compile compiler (s.serialCount + 1) l' p' with
      | error fault =>
        rw [getOrCompile_of_compile_eq_error hfound hcompile]
        have hrefused : ¬ (CacheCall.query l' p' = .query l p ∧ s.answer compiler l p = .ok q) := by
          rintro ⟨hcall, hanswer⟩
          obtain ⟨rfl, rfl⟩ := CacheCall.query.inj hcall
          rw [answer_of_query?_eq_none hfound, hcompile] at hanswer
          cases hanswer
        exact (or_iff_right hrefused).symm
      | ok q' =>
        rw [getOrCompile_of_compile_eq_ok hfound hcompile]
        -- the new entry is in front and hides no other one, as its key was not there
        by_cases hkey : key l p = key l' p'
        · obtain ⟨rfl, rfl⟩ := key_inj hkey
          rw [query?_cons_self, query?_makeRoom_eq_none hfound, answer_of_query?_eq_none hfound,
            hcompile]
          simp
        · have hcall : CacheCall.query l' p' ≠ .query l p := by
            intro hcall
            obtain ⟨rfl, rfl⟩ := CacheCall.query.inj hcall
            exact hkey rfl
          rw [query?_cons_of_ne hkey]
          simp [hcall]

/-- The answer is what compiling anew under its serial number gives. -/
theorem exists_compile_eq_answer (h : Kept compiler s.serialCount s.cache) (l : Language)
    (p : String) :
    ∃ serial, serial ≤ s.serialCount + 1 ∧
      s.answer compiler l p = Query.compile compiler serial l p := by
  cases hfound : s.cache.query? l p with
  | some q =>
    refine ⟨q.serial, ?_, ?_⟩
    · exact Nat.le_succ_of_le (h.serial_le _ (mem_entries_of_query? hfound))
    · rw [answer, getOrCompile_of_query?_eq_some hfound, h.compile_of_query? hfound]
  | none => exact ⟨s.serialCount + 1, Nat.le_refl _, answer_of_query?_eq_none hfound⟩

theorem serialCount_le_callCache (call : CacheCall) :
    s.serialCount ≤ (s.callCache compiler call).serialCount := by
  cases call with
  | query l p => exact Nat.le_succ s.serialCount
  | clear => exact Nat.le_refl s.serialCount

theorem serial_le_callCache (h : Kept compiler s.serialCount s.cache)
    (hq : s.answer compiler l p = .ok q) :
    q.serial ≤ (s.callCache compiler (.query l p)).serialCount := by
  obtain ⟨serial, hle, hanswer⟩ := exists_compile_eq_answer h l p
  rw [hanswer] at hq
  rw [(Query.of_compile_eq_ok hq).1]
  exact hle

/-! ### Runs of calls -/

theorem kept_afterCalls (h : Kept compiler s.serialCount s.cache) (calls : List CacheCall) :
    Kept compiler (s.afterCalls compiler calls).serialCount
      (s.afterCalls compiler calls).cache := by
  induction calls generalizing s with
  | nil => exact h
  | cons call later ih => exact ih (kept_callCache h call)

theorem serialCount_le_afterCalls (s : Session) (calls : List CacheCall) :
    s.serialCount ≤ (s.afterCalls compiler calls).serialCount := by
  induction calls generalizing s with
  | nil => exact Nat.le_refl _
  | cons call later ih => exact Nat.le_trans (serialCount_le_callCache call) (ih _)

theorem Answered.serial_le (h : Kept compiler s.serialCount s.cache)
    (hq : Answered compiler s calls l p q) :
    q.serial ≤ (s.afterCalls compiler calls).serialCount := by
  induction calls generalizing s with
  | nil =>
    obtain ⟨before, later, hsplit, -⟩ := hq
    simp at hsplit
  | cons call later ih =>
    obtain ⟨rfl, hanswer⟩ | hlater := answered_cons hq
    · exact Nat.le_trans (serial_le_callCache h hanswer) (serialCount_le_afterCalls _ later)
    · exact ih (kept_callCache h call) hlater

/-- The entries after a run of calls: what the calls were answered, and all that were there before,
each unless the cache was emptied since. -/
theorem query?_afterCalls (h : Kept compiler s.serialCount s.cache) :
    (s.afterCalls compiler calls).cache.query? l p = some q ↔
      Held compiler s calls l p q ∨
      (s.cache.query? l p = some q ∧ undisturbed compiler s calls = true) := by
  induction calls generalizing s with
  | nil => simp [afterCalls, undisturbed, Held]
  | cons call later ih =>
    have hcall : s.afterCalls compiler (call :: later) =
        (s.callCache compiler call).afterCalls compiler later := rfl
    rw [hcall, ih (kept_callCache h call), query?_callCache h, held_cons, undisturbed,
      Bool.and_eq_true, Bool.not_eq_true']
    -- an entry made or kept by the first call is there in the end if `later` leaves the cache alone
    grind

/-- In a session that has just started the cache holds the queries of the calls alone. -/
theorem query?_start_afterCalls {files : FileSystem} {check : LanguageCheck} :
    ((start files check).afterCalls compiler calls).cache.query? l p = some q ↔
      Held compiler (start files check) calls l p q := by
  rw [query?_afterCalls Kept.empty]
  simp [start, query?, QueryCache.empty]

/-- Whatever calls have been made, a request for the query of a text is answered as if the text
were compiled anew, except that the serial number is that of a query handed out before if the cache
has not been emptied since, and new otherwise.  The keys of the cache are those of the texts that
were asked for with success since it was last emptied, each once and never more than 256. -/
theorem getOrCompile_transparent (compiler : QueryCompiler) (files : FileSystem)
    (check : LanguageCheck) (calls : List CacheCall) :
    let s := (start files check).afterCalls compiler calls
    let held := Held compiler (start files check) calls
    (∀ l p serial,
      (s.answer compiler l p).map (Query.renumber serial) = Query.compile compiler serial l p) ∧
    (∀ l p q, s.answer compiler l p = .ok q → q.language = l ∧ q.source = p) ∧
    s.cache.size ≤ 256 ∧ s.cache.keys.Nodup ∧
    (∀ k, k ∈ s.cache.keys ↔ ∃ l p q, k = key l p ∧ held l p q) ∧
    (∀ l₁ p₁ l₂ p₂, key l₁ p₁ = key l₂ p₂ → l₁ = l₂ ∧ p₁ = p₂) ∧
    (∀ l p q, held l p q → s.answer compiler l p = .ok q) ∧
    (∀ l p q, (∀ q', ¬ held l p q') → s.answer compiler l p = .ok q →
      ∀ l' p' q', Answered compiler (start files check) calls l' p' q' → q'.serial < q.serial) := by
  intro s held
  have hstart : Kept compiler (start files check).serialCount (start files check).cache := .empty
  have hkept : Kept compiler s.serialCount s.cache := kept_afterCalls hstart calls
  have hheld : ∀ l p q, s.cache.query? l p = some q ↔ held l p q :=
    fun _ _ _ => query?_start_afterCalls
  refine ⟨?_, ?_, hkept.size_le, hkept.nodup, ?_, fun _ _ _ _ => key_inj, ?_, ?_⟩
  · intro l p serial
    obtain ⟨_, -, hanswer⟩ := exists_compile_eq_answer hkept l p
    rw [hanswer, Query.compile_renumber]
  · intro l p q hq
    obtain ⟨_, -, hanswer⟩ := exists_compile_eq_answer hkept l p
    exact (Query.of_compile_eq_ok (hanswer ▸ hq)).2
  · -- every key belongs to the text of its query, and so to a text that is held
    intro k
    constructor
    · intro hk
      obtain ⟨e, he, rfl⟩ := List.mem_map.1 hk
      have hkey := hkept.key_eq e he
      obtain ⟨q, hq⟩ := key_mem_keys_iff.1 (hkey ▸ hk)
      exact ⟨_, _, q, hkey, (hheld _ _ _).1 hq⟩
    · rintro ⟨l, p, q, rfl, hq⟩
      exact key_mem_keys_iff.2 ⟨q, (hheld l p q).2 hq⟩
  · intro l p q hq
    rw [answer, getOrCompile_of_query?_eq_some ((hheld l p q).2 hq)]
  · -- a text that is not held is not in the cache, and is compiled under the next serial number
    intro l p q hnone hq l' p' q' hanswered
    have hnew : s.cache.query? l p = none :=
      Option.eq_none_iff_forall_ne_some.2 fun q' h => hnone q' ((hheld l p q').1 h)
    rw [answer_of_query?_eq_none hnew] at hq
    rw [(Query.of_compile_eq_ok hq).1]
    exact Nat.lt_succ_of_le (hanswered.serial_le hstart)

/-- After a request for `:(a)`, one that is refused and one for another language, the first query is
shared, and `(a)`, which differs by the colon only, gets a query of its own. -/
theorem getOrCompile_transparent_colons :
    let compiler : QueryCompiler := fun _ p =>
      if p = "(" then .error ⟨.syntaxError, 0, 0, 1, "("⟩ else .ok ⟨[p], []⟩
    let calls := [.query .c ":(a)", .query .c "(", .query .cpp "(a)"]
    let s₀ := start FileStore.empty.system fun _ => none
    let s := s₀.afterCalls compiler calls
    let first : Query := ⟨1, .c, ":(a)", ⟨[":(a)"], []⟩⟩
    let second : Query := ⟨4, .c, "(a)", ⟨["(a)"], []⟩⟩
    (Held compiler s₀ calls .c ":(a)" first ∧ s.answer compiler .c ":(a)" = .ok first) ∧
    (∀ q, ¬ Held compiler s₀ calls .c "(a)" q) ∧
    s.answer compiler .c "(a)" = .ok second ∧ first.serial < second.serial := by
  intro compiler calls s₀ s first second
  obtain ⟨-, -, -, -, hkeys, -, hshared, hfresh⟩ :=
    getOrCompile_transparent compiler FileStore.empty.system (fun _ => none) calls
  have hfirst : s₀.answer compiler .c ":(a)" = .ok first := rfl
  have hsecond : s.answer compiler .c "(a)" = .ok second := rfl
  have hheld : Held compiler s₀ calls .c ":(a)" first :=
    ⟨[], _, rfl, hfirst, by decide +kernel⟩
  have hnew : ∀ q, ¬ Held compiler s₀ calls .c "(a)" q := by
    intro q hq
    have hmem : key .c "(a)" ∈ s.cache.keys := (hkeys _).2 ⟨_, _, q, rfl, hq⟩
    exact absurd hmem (by decide +kernel)
  exact ⟨⟨hheld, hshared _ _ _ hheld⟩, hnew, hsecond,
    hfresh _ _ _ hnew hsecond _ _ _ ⟨[], _, rfl, hfirst⟩⟩

end Session

end SyntaxView
