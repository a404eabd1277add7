import Mathlib.Data.List.Nodup
import Mathlib.Data.List.TakeWhile
import SyntaxView.Proofs.CacheTransparency

/-!
# Faults and the query cache

A text that does not compile is not kept in the cache, but room is made for it before it is
compiled.  So a fault leaves the cache exactly as it was unless the cache is full, and then it
leaves nothing: `Session.cache_after_fault`.  The cache does get full, as every text that compiles
and is not in it makes it larger by one (`Session.size_afterCalls_of_new`).
-/

namespace SyntaxView

/-! ### Texts that compile -/

theorem Text.mem_trim {s : List Char} {c : Char} (hc : c ∈ s) (hblank : isWhiteSpace c = false) :
    c ∈ trim s := by
  have hdrop : ∀ {s : List Char}, c ∈ s → c ∈ s.dropWhile isWhiteSpace := by
    intro s hc
    rw [← List.takeWhile_append_dropWhile (p := isWhiteSpace) (l := s)] at hc
    rcases List.mem_append.1 hc with hc | hc
    · rw [List.mem_takeWhile_imp hc] at hblank
      cases hblank
    · exact hc
  have hstart : c ∈ trimStart s := hdrop hc
  exact List.mem_reverse.2 (hdrop (List.mem_reverse.2 hstart))

/-- A text that is not blank compiles if the engine compiles it. -/
theorem Query.exists_compile_eq_ok {compiler : QueryCompiler} {l : Language} {p : String}
    {compiled : CompiledQuery} (hp : compiler l p = .ok compiled) {c : Char} (hc : c ∈ p.toList)
    (hblank : Text.isWhiteSpace c = false) (serial : Nat) :
    ∃ q, compile compiler serial l p = .ok q := by
  have htrim : (Text.trim p.toList).isEmpty = false :=
    List.isEmpty_eq_false_iff.2 (List.ne_nil_of_mem (Text.mem_trim hc hblank))
  refine ⟨⟨serial, l, p, compiled⟩, ?_⟩
  rw [compile, htrim, hp]
  rfl

namespace Sample

/-- To this compiler a parenthesis that is not closed is a fault. -/
def compiler : QueryCompiler := fun _ p =>
  if p = "(" then .error ⟨.syntaxError, 0, 0, 1, "("⟩ else .ok ⟨[p], []⟩

/-- The texts `a`, `aa` and so on, as many as a cache holds. -/
def texts : List String := (List.range 256).map fun n => .ofList (List.replicate (n + 1) 'a')

theorem length_texts : texts.length = 256 := by
  rw [texts, List.length_map, List.length_range]

theorem nodup_texts : texts.Nodup := by
  refine List.nodup_range.map fun n m h => ?_
  have hlength := congrArg (fun p => p.toList.length) h
  simpa using hlength

theorem exists_compile_texts {p : String} (hp : p ∈ texts) (l : Language) (serial : Nat) :
    ∃ q, Query.compile compiler serial l p = .ok q := by
  obtain ⟨n, -, rfl⟩ := List.mem_map.1 hp
  have ha : 'a' ∈ (String.ofList (List.replicate (n + 1) 'a')).toList := by simp
  refine Query.exists_compile_eq_ok (if_neg ?_) ha (by decide) serial
  intro hparenthesis
  rw [hparenthesis] at ha
  exact absurd ha (by decide)

end Sample

/-! ### Room -/

namespace QueryCache

theorem makeRoom_of_lt {cache : QueryCache} (h : cache.size < capacity) : cache.makeRoom = cache :=
  if_neg (Nat.not_le_of_lt h)

theorem makeRoom_of_full {cache : QueryCache} (h : cache.size = capacity) :
    cache.makeRoom = empty :=
  if_pos (Nat.le_of_eq h.symm)

end QueryCache

namespace Session

open QueryCache

variable {compiler : QueryCompiler} {s : Session} {l : Language} {p : String} {q : Query}
  {fault : Fault}

/-! ### Faults -/

/-- A text that is answered with a fault is not in the cache. -/
theorem query?_of_answer_eq_error (h : s.answer compiler l p = .error fault) :
    s.cache.query? l p = none := by
  cases hfound : s.cache.query? l p with
  | none => rfl
  | some q =>
    rw [answer, getOrCompile_of_query?_eq_some hfound] at h
    cases h

/-- A fault makes room, and no more. -/
theorem cache_of_answer_eq_error (h : s.answer compiler l p = .error fault) :
    (s.callCache compiler (.query l p)).cache = s.cache.makeRoom := by
  have hnew := query?_of_answer_eq_error h
  rw [answer_of_query?_eq_none hnew] at h
  rw [callCache, getOrCompile_of_compile_eq_error hnew h]

/-- **The cache after a fault**, whatever calls have been made.  It is as it was, with the same
queries under the same keys, unless it was full; then it is empty. -/
theorem cache_after_fault (compiler : QueryCompiler) (files : FileSystem) (check : LanguageCheck)
    (calls : List CacheCall) (l : Language) (p : String) (fault : Fault)
    (h : ((start files check).afterCalls compiler calls).answer compiler l p = .error fault) :
    let s := (start files check).afterCalls compiler calls
    let after := (s.callCache compiler (.query l p)).cache
    s.cache.size ≤ 256 ∧
    (after = s.cache ↔ s.cache.size ≠ 256) ∧
    (s.cache.size = 256 → after = .empty) := by
  intro s after
  have hkept : Kept compiler s.serialCount s.cache := kept_afterCalls Kept.empty calls
  have hafter : after = s.cache.makeRoom := cache_of_answer_eq_error h
  have hfull : s.cache.size = 256 → after = .empty :=
    fun hsize => hafter.trans (makeRoom_of_full hsize)
  refine ⟨hkept.size_le, ⟨?_, ?_⟩, hfull⟩
  · intro hsame hsize
    -- the cache would be empty and full at once
    have hempty : s.cache = .empty := hsame.symm.trans (hfull hsize)
    rw [hempty] at hsize
    cases hsize
  · intro hsize
    exact hafter.trans (makeRoom_of_lt (Nat.lt_of_le_of_ne hkept.size_le hsize))

/-- A fault in a session that has two queries in its cache. -/
theorem cache_after_fault_pair :
    let s₀ := start FileStore.empty.system fun _ => none
    let s := s₀.afterCalls Sample.compiler [.query .json "(a)", .query .c "(a)"]
    let after := (s.callCache Sample.compiler (.query .json "(")).cache
    s.answer Sample.compiler .json "(" = .error (.badQuery ⟨.syntaxError, 0, 0, 1, "("⟩) ∧
    s.cache.size = 2 ∧ after = s.cache := by
  intro s₀ s after
  have hfault :
      s.answer Sample.compiler .json "(" = .error (.badQuery ⟨.syntaxError, 0, 0, 1, "("⟩) := rfl
  have hsize : s.cache.size = 2 := by decide +kernel
  obtain ⟨-, hsame, -⟩ := cache_after_fault Sample.compiler FileStore.empty.system
    (fun _ => none) _ .json "(" _ hfault
  refine ⟨hfault, hsize, hsame.2 ?_⟩
  show s.cache.size ≠ 256
  rw [hsize]
  decide

/-! ### A full cache -/

/-- A text that compiles and is not in the cache goes into it. -/
theorem cache_of_compile_eq_ok (hroom : s.cache.size < capacity)
    (hnew : s.cache.query? l p = none)
    (hq : Query.compile compiler (s.serialCount + 1) l p = .ok q) :
    (s.callCache compiler (.query l p)).cache = ⟨(key l p, q) :: s.cache.entries⟩ := by
  rw [callCache, getOrCompile_of_compile_eq_ok hnew hq, makeRoom_of_lt hroom]

/-- Different texts that compile and are not in the cache all go into it, as long as there is
room. -/
theorem size_afterCalls_of_new {texts : List String} (hnodup : texts.Nodup)
    (hcompile : ∀ p ∈ texts, ∀ serial, ∃ q, Query.compile compiler serial l p = .ok q)
    (hnew : ∀ p ∈ texts, s.cache.query? l p = none)
    (hroom : s.cache.size + texts.length ≤ capacity) :
    (s.afterCalls compiler (texts.map (.query l))).cache.size
      = s.cache.size + texts.length := by
  induction texts generalizing s with
  | nil => rfl
  | cons p texts ih =>
    obtain ⟨hp, hnodup⟩ := List.nodup_cons.1 hnodup
    obtain ⟨q, hq⟩ := hcompile p List.mem_cons_self (s.serialCount + 1)
    rw [List.length_cons] at hroom ⊢
    have hcache := cache_of_compile_eq_ok (s := s) (by omega) (hnew p List.mem_cons_self) hq
    have hsize : (s.callCache compiler (.query l p)).cache.size = s.cache.size + 1 := by
      rw [hcache]
      rfl
    -- the new entry is under the key of `p`, and so under that of no later text
    have hlater : ∀ p' ∈ texts, (s.callCache compiler (.query l p)).cache.query? l p' = none := by
      intro p' hp'
      have hkey : key l p' ≠ key l p := by
        intro hkey
        obtain ⟨-, rfl⟩ := key_inj hkey
        exact hp hp'
      rw [hcache, query?_cons_of_ne hkey]
      exact hnew p' (List.mem_cons_of_mem _ hp')
    have hrest := ih hnodup (fun p' hp' => hcompile p' (List.mem_cons_of_mem _ hp')) hlater
      (by omega)
    show ((s.callCache compiler (.query l p)).afterCalls compiler _).cache.size = _
    rw [hrest, hsize]
    omega

/-- After so many different texts that compile a new session has them all in its cache. -/
theorem size_start_afterCalls {files : FileSystem} {check : LanguageCheck} {texts : List String}
    (hnodup : texts.Nodup)
    (hcompile : ∀ p ∈ texts, ∀ serial, ∃ q, Query.compile compiler serial l p = .ok q)
    (hroom : texts.length ≤ capacity) :
    ((start files check).afterCalls compiler (texts.map (.query l))).cache.size = texts.length := by
  have hzero : (start files check).cache.size = 0 := rfl
  have hsize := size_afterCalls_of_new (s := start files check) hnodup hcompile (fun _ _ => rfl)
    (by rw [hzero, Nat.zero_add]; exact hroom)
  rw [hsize, hzero, Nat.zero_add]

/-- A text that does not compile empties the cache after so many that do. -/
theorem cache_of_full {files : FileSystem} {check : LanguageCheck} {texts : List String}
    (hnodup : texts.Nodup)
    (hcompile : ∀ p ∈ texts, ∀ serial, ∃ q, Query.compile compiler serial l p = .ok q)
    (hlength : texts.length = 256)
    (hfault : ∀ serial, Query.compile compiler serial l p = .error fault) :
    let s := (start files check).afterCalls compiler (texts.map (.query l))
    let after := (s.callCache compiler (.query l p)).cache
    (∃ fault, s.answer compiler l p = .error fault) ∧
    s.cache.size = 256 ∧ after = .empty ∧ after ≠ s.cache := by
  intro s after
  have hfull : s.cache.size = 256 :=
    (size_start_afterCalls hnodup hcompile (Nat.le_of_eq hlength)).trans hlength
  have hkept : Kept compiler s.serialCount s.cache := kept_afterCalls Kept.empty _
  -- what is in the cache compiles, and the last text does not
  have hnew : s.cache.query? l p = none := by
    cases hfound : s.cache.query? l p with
    | none => rfl
    | some q =>
      have hcompiled := hkept.compile_of_query? hfound
      rw [hfault] at hcompiled
      cases hcompiled
  have hanswer : s.answer compiler l p = .error fault := by
    rw [answer_of_query?_eq_none hnew, hfault]
  have hempty : after = .empty :=
    (cache_of_answer_eq_error hanswer).trans (makeRoom_of_full hfull)
  refine ⟨⟨fault, hanswer⟩, hfull, hempty, ?_⟩
  intro hsame
  rw [← hsame, hempty] at hfull
  cases hfull

/-- After 256 texts that compile, a fault empties the cache. -/
theorem cache_emptied_by_fault :
    let s₀ := start FileStore.empty.system fun _ => none
    let s := s₀.afterCalls Sample.compiler (Sample.texts.map (.query .json))
    let after := (s.callCache Sample.compiler (.query .json "(")).cache
    (∃ fault, s.answer Sample.compiler .json "(" = .error fault) ∧
    s.cache.size = 256 ∧ after = .empty ∧ after ≠ s.cache :=
  cache_of_full Sample.nodup_texts (fun _ hp => Sample.exists_compile_texts hp .json)
    Sample.length_texts fun _ => rfl

end Session

end SyntaxView
