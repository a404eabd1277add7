import SyntaxView.Proofs.TomlKeys
import SyntaxView.Settings

/-!
# Entries of settings

What the entries of a document of settings may be.  `Settings.Describes` is what a document has to
hold, key by key and without an order; `Settings.Offence` is what can be wrong with one of its
entries, and `Settings.FirstOffence` picks the first entry of a table with which something is wrong.

Reading is a fold over the entries, of the document as well as of its table of query settings, so
what it answers follows from what it does with one of them.  It stops at the first offence
(`foldlM_eq_error_iff`), and without one each setting is the value of its key (`field_foldlM`).
-/

namespace SyntaxView.Settings

open Toml (Entries Item Key)

/-! ### What a document describes -/

/-- A setting that may be left out: the value of its key says what it is, and without the key it is
the default. -/
def Given {β : Type} (entries : Entries) (name : String) (default : β)
    (Tells : Toml.Value → β → Prop) (setting : β) : Prop :=
  entries.find? name = none ∧ setting = default ∨
    ∃ item, entries.find? name = some item ∧ Tells item.2 setting

def NamesLanguage (value : Toml.Value) (language : Language) : Prop :=
  ∃ name, value = .text name ∧ Language.ofName? name = some language

def NamesEncoding (value : Toml.Value) (encoding : Encoding) : Prop :=
  ∃ name, value = .text name ∧ (name, encoding) ∈
    [("utf-8", .utf8), ("utf8", .utf8), ("utf-16", .utf16), ("utf16", .utf16)]

def IsLimit (value : Toml.Value) (limit : Option Nat) : Prop :=
  ∃ n : Nat, value = .integer n ∧ 1 ≤ n ∧ n ≤ 4294967295 ∧ limit = some n

/-- The limit that the entries of the table of query settings describe. -/
structure DescribesLimit (entries : Entries) (limit : Option Nat) : Prop where
  keys : ∀ name ∈ entries.names, name = "match_limit"
  limit : Given entries "match_limit" none IsLimit limit

def HoldsLimit (value : Toml.Value) (limit : Option Nat) : Prop :=
  ∃ origin entries, value = .table origin entries ∧ DescribesLimit entries limit

/-- The settings that a document describes. -/
structure Describes (document : Entries) (settings : Settings) : Prop where
  keys : ∀ name ∈ document.names, name ∈ ["language", "encoding", "query"]
  language : ∃ item, document.find? "language" = some item ∧
    NamesLanguage item.2 settings.language
  encoding : Given document "encoding" .utf8 NamesEncoding settings.encoding
  query : Given document "query" none HoldsLimit settings.matchLimit

/-- Neither is the encoding written as a table nor are the query settings written as an array.  Such
values are taken apart by their structure, without a look at the names of settings. -/
structure Conventional (document : Entries) : Prop where
  encoding : ∀ item, document.find? "encoding" = some item → item.2.isTable = false
  query : ∀ item, document.find? "query" = some item → item.2.isArray = false

/-! ### What can be wrong with a document -/

/-- What is wrong with an entry of the table of query settings. -/
inductive LimitOffence : Key × Item → Complaint → Prop
  | unknownKey {key : Key} {item : Item} (hkey : key.name ≠ "match_limit") :
    LimitOffence (key, item) ⟨key.span, .unknownQueryKey key.name⟩
  | notInteger {key : Key} {span : Toml.Span} {value : Toml.Value} (hkey : key.name = "match_limit")
    (hvalue : ∀ n, value ≠ .integer n) :
    LimitOffence (key, span, value) ⟨span, .limitNotInteger value⟩
  | outOfRange {key : Key} {span : Toml.Span} {n : Int} (hkey : key.name = "match_limit")
    (hn : n < 1 ∨ 4294967295 < n) :
    LimitOffence (key, span, .integer n) ⟨span, .limitOutOfRange n⟩

/-- The complaint about the first entry with which something is wrong. -/
def FirstOffence (offence : Key × Item → Complaint → Prop) (entries : Entries)
    (complaint : Complaint) : Prop :=
  ∃ before entry after, entries = before ++ entry :: after ∧
    (∀ earlier ∈ before, ∀ c, ¬ offence earlier c) ∧ offence entry complaint

/-- What is wrong with an entry of a document. -/
inductive Offence : Key × Item → Complaint → Prop
  | unknownKey {key : Key} {item : Item} (hkey : key.name ∉ ["language", "encoding", "query"]) :
    Offence (key, item) ⟨key.span, .unknownKey key.name⟩
  | languageNotText {key : Key} {span : Toml.Span} {value : Toml.Value}
    (hkey : key.name = "language") (hvalue : ∀ name, value ≠ .text name) :
    Offence (key, span, value) ⟨span, .languageNotText value⟩
  | unknownLanguage {key : Key} {span : Toml.Span} {name : String}
    (hkey : key.name = "language") (hname : Language.ofName? name = none) :
    Offence (key, span, .text name) ⟨span, .unknownLanguage name⟩
  | encodingNotText {key : Key} {span : Toml.Span} {value : Toml.Value}
    (hkey : key.name = "encoding") (hvalue : ∀ name, value ≠ .text name) :
    Offence (key, span, value) ⟨span, .encodingNotText⟩
  | unknownEncoding {key : Key} {span : Toml.Span} {name : String}
    (hkey : key.name = "encoding") (hname : name ∉ ["utf-8", "utf8", "utf-16", "utf16"]) :
    Offence (key, span, .text name) ⟨span, .unknownEncoding name⟩
  /-- A date is taken for a table with a key of its own. -/
  | queryDate {key : Key} {span : Toml.Span} (hkey : key.name = "query") :
    Offence (key, span, .dateTime) ⟨span, .unknownQueryKey dateKey⟩
  | queryNotTable {key : Key} {span : Toml.Span} {value : Toml.Value} (hkey : key.name = "query")
    (hvalue : value.isTable = false) (hdate : value ≠ .dateTime) :
    Offence (key, span, value) ⟨span, .queryNotTable value⟩
  | inQuery {key : Key} {span : Toml.Span} {origin : Toml.TableOrigin} {entries : Entries}
    {complaint : Complaint} (hkey : key.name = "query")
    (hfirst : FirstOffence LimitOffence entries complaint) :
    Offence (key, span, .table origin entries) complaint

/-! ### Folds over the entries of a table -/

section Folds

theorem map_eq_ok_iff {α β : Type} {x : Except Complaint α} {f : α → β} {b : β} :
    x.map f = .ok b ↔ ∃ a, x = .ok a ∧ b = f a := by
  cases x <;> simp [Except.map, eq_comm]

theorem map_eq_error_iff {α β : Type} {x : Except Complaint α} {f : α → β} {c : Complaint} :
    x.map f = .error c ↔ x = .error c := by
  cases x <;> simp [Except.map]

variable {σ β : Type} {step : σ → Key × Item → Except Complaint σ}
  {offence : Key × Item → Complaint → Prop} {entries : Entries} {s s' : σ} {c : Complaint}

theorem firstOffence_cons {entry : Key × Item} :
    FirstOffence offence (entry :: entries) c ↔
      offence entry c ∨ (∀ c', ¬ offence entry c') ∧ FirstOffence offence entries c := by
  constructor
  · rintro ⟨before, first, after, hsplit, hbefore, hfirst⟩
    obtain - | ⟨head, before⟩ := before
    · obtain ⟨rfl, rfl⟩ := List.cons.inj hsplit
      exact .inl hfirst
    · obtain ⟨rfl, rfl⟩ := List.cons.inj hsplit
      obtain ⟨hhead, hbefore⟩ := List.forall_mem_cons.1 hbefore
      exact .inr ⟨hhead, before, first, after, rfl, hbefore, hfirst⟩
  · rintro (hentry | ⟨hentry, before, first, after, rfl, hbefore, hfirst⟩)
    · exact ⟨[], entry, entries, rfl, by simp, hentry⟩
    · exact ⟨entry :: before, first, after, rfl, List.forall_mem_cons.2 ⟨hentry, hbefore⟩, hfirst⟩

theorem no_offence_of_ok {entry : Key × Item}
    (hstep : ∀ s c, step s entry = .error c ↔ offence entry c) (hs : step s entry = .ok s') :
    ∀ c, ¬ offence entry c := by
  intro c hc
  rw [(hstep s c).2 hc] at hs
  cases hs

/-- A fold that fails on offences fails on the first of them. -/
theorem foldlM_eq_error_iff
    (hstep : ∀ entry ∈ entries, ∀ s c, step s entry = .error c ↔ offence entry c) :
    entries.foldlM step s = .error c ↔ FirstOffence offence entries c := by
  induction entries generalizing s with
  | nil =>
    constructor
    · intro h
      cases h
    · rintro ⟨before, entry, after, hsplit, -⟩
      cases before <;> cases hsplit
  | cons entry entries ih =>
    obtain ⟨hentry, hentries⟩ := List.forall_mem_cons.1 hstep
    rw [List.foldlM_cons, firstOffence_cons]
    cases hs : step s entry with
    | error c₁ =>
      have hc₁ : offence entry c₁ := (hentry s c₁).1 hs
      show Except.error c₁ = Except.error c ↔ _
      rw [← hs, hentry s c]
      constructor
      · exact .inl
      · rintro (h | ⟨hnone, -⟩)
        · exact h
        · exact absurd hc₁ (hnone c₁)
    | ok s₁ =>
      have hnone := no_offence_of_ok hentry hs
      show entries.foldlM step s₁ = .error c ↔ _
      rw [ih hentries]
      simp [hnone]

/-- A fold that fails on offences succeeds without them and only then. -/
theorem exists_foldlM_eq_ok_iff
    (hstep : ∀ entry ∈ entries, ∀ s c, step s entry = .error c ↔ offence entry c) :
    (∃ s', entries.foldlM step s = .ok s') ↔ ∀ entry ∈ entries, ∀ c, ¬ offence entry c := by
  induction entries generalizing s with
  | nil => simp [pure, Except.pure]
  | cons entry entries ih =>
    obtain ⟨hentry, hentries⟩ := List.forall_mem_cons.1 hstep
    rw [List.foldlM_cons, List.forall_mem_cons]
    cases hs : step s entry with
    | error c =>
      have hc : offence entry c := (hentry s c).1 hs
      constructor
      · rintro ⟨s', hfold⟩
        cases hfold
      · rintro ⟨hnone, -⟩
        exact absurd hc (hnone c)
    | ok s₁ =>
      have hnone := no_offence_of_ok hentry hs
      show (∃ s', entries.foldlM step s₁ = .ok s') ↔ _
      rw [ih hentries]
      simp [hnone]

/-- The value of one key after a fold.  The entry of that name sets it and no other entry changes
it. -/
theorem field_foldlM (field : σ → Option β) (name : String) (valueOf : Item → Except Complaint β)
    (hit : ∀ {s s' : σ} {entry : Key × Item}, entry.1.name = name → step s entry = .ok s' →
      ∃ b, valueOf entry.2 = .ok b ∧ field s' = some b)
    (miss : ∀ {s s' : σ} {entry : Key × Item}, entry.1.name ≠ name → step s entry = .ok s' →
      field s' = field s)
    (hnames : entries.names.Nodup) (hfold : entries.foldlM step s = .ok s') :
    (entries.find? name = none ∧ field s' = field s) ∨
      ∃ item b, entries.find? name = some item ∧ valueOf item = .ok b ∧ field s' = some b := by
  induction entries generalizing s with
  | nil =>
    cases hfold
    exact .inl ⟨rfl, rfl⟩
  | cons entry entries ih =>
    obtain ⟨hfresh, hnames⟩ := List.nodup_cons.1 hnames
    rw [List.foldlM_cons] at hfold
    cases hs : step s entry with
    | error c =>
      rw [hs] at hfold
      cases hfold
    | ok s₁ =>
      rw [hs] at hfold
      rw [Entries.find?_cons]
      by_cases hname : entry.1.name = name
      · obtain ⟨b, hb, hfield⟩ := hit hname hs
        rw [if_pos hname]
        -- no later entry has the name, so the value stays
        rcases ih hnames hfold with ⟨-, hsame⟩ | ⟨item, -, hfind, -⟩
        · exact .inr ⟨entry.2, b, rfl, hb, hsame.trans hfield⟩
        · rw [Entries.find?_eq_none.2 (hname ▸ hfresh)] at hfind
          cases hfind
      · rw [if_neg hname, ← miss hname hs]
        exact ih hnames hfold

end Folds

/-! ### Settings that may be left out -/

namespace Given

variable {β : Type} {entries entries' : Entries} {name : String} {default setting setting' : β}
  {Tells : Toml.Value → β → Prop}

/-- The value of an entry is the one that counts for its name. -/
theorem of_mem (h : Given entries name default Tells setting) (hentries : entries.Distinct)
    {entry : Key × Item} (hentry : entry ∈ entries) (hname : entry.1.name = name) :
    Tells entry.2.2 setting := by
  have hfind := hentries.find?_eq_some_iff.2 ⟨entry.1, hname, hentry⟩
  rcases h with ⟨hnone, -⟩ | ⟨item, hsome, htells⟩
  · cases hnone.symm.trans hfind
  · rwa [Option.some.inj (hfind.symm.trans hsome)]

theorem unique (h : Given entries name default Tells setting)
    (h' : Given entries name default Tells setting')
    (htells : ∀ {value : Toml.Value} {b b' : β}, Tells value b → Tells value b' → b = b') :
    setting = setting' := by
  rcases h with ⟨hnone, rfl⟩ | ⟨item, hsome, hsetting⟩ <;>
    rcases h' with ⟨hnone', rfl⟩ | ⟨item', hsome', hsetting'⟩
  · rfl
  · cases hnone.symm.trans hsome'
  · cases hnone'.symm.trans hsome
  · rw [Option.some.inj (hsome.symm.trans hsome')] at hsetting
    exact htells hsetting hsetting'

theorem rearranged (hentries : entries.Distinct) (h : entries.Rearranged entries')
    (htells : ∀ {value value' : Toml.Value}, value.Distinct → value.Rearranged value' →
      (Tells value setting ↔ Tells value' setting)) :
    Given entries name default Tells setting ↔ Given entries' name default Tells setting :=
  or_congr (and_congr_left' h.find?_eq_none)
    (h.exists_find?_iff (P := fun value => Tells value setting) hentries name htells)

end Given

/-! ### Query settings -/

variable {item : Item} {entries entries' : Entries} {limit : Option Nat} {c : Complaint}

theorem limitOf_eq_ok_iff {m : Nat} : limitOf item = .ok m ↔ IsLimit item.2 (some m) := by
  obtain ⟨span, value⟩ := item
  unfold IsLimit
  cases value with
  | integer n =>
    rw [limitOf]
    by_cases hn : 0 < n ∧ n ≤ 0xFFFFFFFF
    · rw [if_pos hn]
      simp only [Except.ok.injEq, Toml.Value.integer.injEq, Option.some.injEq]
      constructor
      · rintro rfl
        exact ⟨n.toNat, by omega, by omega, by omega, rfl⟩
      · rintro ⟨k, rfl, -, -, rfl⟩
        rfl
    · rw [if_neg hn]
      simp only [reduceCtorEq, Toml.Value.integer.injEq, false_iff, not_exists, not_and]
      intro k hk
      omega
  | _ => simp [limitOf]

/-- One entry of the table of query settings. -/
def readLimit (_ : Option Nat) (entry : Key × Item) : Except Complaint (Option Nat) :=
  if entry.1.name = "match_limit" then (limitOf entry.2).map some
  else .error ⟨entry.1.span, .unknownQueryKey entry.1.name⟩

theorem limitIn_eq_foldlM (sofar : Option Nat) (entries : Entries) :
    limitIn sofar entries = entries.foldlM readLimit sofar := by
  induction entries generalizing sofar with
  | nil => rfl
  | cons entry entries ih =>
    obtain ⟨key, item⟩ := entry
    rw [limitIn, List.foldlM_cons]
    unfold readLimit
    split
    · cases limitOf item with
      | error c => rfl
      | ok n => exact ih (some n)
    · rfl

theorem readLimit_eq_error_iff (sofar : Option Nat) (entry : Key × Item) (c : Complaint) :
    readLimit sofar entry = .error c ↔ LimitOffence entry c := by
  obtain ⟨key, span, value⟩ := entry
  unfold readLimit
  by_cases hkey : key.name = "match_limit"
  · rw [if_pos hkey, map_eq_error_iff]
    constructor
    · intro h
      cases value with
      | integer n =>
        rw [limitOf] at h
        split at h
        · cases h
        · cases h
          exact .outOfRange hkey (by omega)
      | _ =>
        cases h
        exact .notInteger hkey (by simp)
    · rintro (hunknown | ⟨-, hvalue⟩ | ⟨-, hn⟩)
      · exact absurd hkey hunknown
      · cases value with
        | integer n => exact absurd rfl (hvalue n)
        | _ => rfl
      · rw [limitOf, if_neg (by omega)]
  · rw [if_neg hkey]
    constructor
    · intro h
      cases h
      exact .unknownKey hkey
    · rintro (- | ⟨hlimit, -⟩ | ⟨hlimit, -⟩)
      · rfl
      · exact absurd hlimit hkey
      · exact absurd hlimit hkey

theorem limitIn_eq_error_iff :
    limitIn none entries = .error c ↔ FirstOffence LimitOffence entries c := by
  rw [limitIn_eq_foldlM]
  exact foldlM_eq_error_iff fun entry _ sofar c => readLimit_eq_error_iff sofar entry c

/-- A described limit leaves nothing to complain about. -/
theorem DescribesLimit.no_offence (h : DescribesLimit entries limit) (hentries : entries.Distinct) :
    ∀ entry ∈ entries, ∀ c, ¬ LimitOffence entry c := by
  intro entry hentry c hoffence
  have hkey := h.keys _ (Entries.mem_names_of_mem hentry)
  obtain ⟨n, hn, hlow, hhigh, -⟩ := h.limit.of_mem hentries hentry hkey
  cases hoffence with
  | unknownKey hunknown => exact hunknown hkey
  | notInteger _ hvalue => exact hvalue n hn
  | outOfRange _ hrange =>
    cases hn
    omega

theorem IsLimit.unique {value : Toml.Value} {limit limit' : Option Nat} :
    IsLimit value limit → IsLimit value limit' → limit = limit' := by
  rintro ⟨n, rfl, -, -, rfl⟩ ⟨n', hn, -, -, rfl⟩
  rw [Int.ofNat_inj.1 (Toml.Value.integer.inj hn)]

theorem describesLimit_of_limitIn (hentries : entries.Distinct)
    (h : limitIn none entries = .ok limit) : DescribesLimit entries limit := by
  rw [limitIn_eq_foldlM] at h
  constructor
  · intro name hname
    obtain ⟨entry, hentry, rfl⟩ := List.mem_map.1 hname
    have hnone := (exists_foldlM_eq_ok_iff
      fun entry _ sofar c => readLimit_eq_error_iff sofar entry c).1 ⟨limit, h⟩
    by_contra hkey
    exact hnone entry hentry _ (.unknownKey hkey)
  · have hlimit := field_foldlM id "match_limit" limitOf ?_ ?_ hentries.names h
    · rcases hlimit with hlimit | ⟨item, m, hfind, hm, hlimit⟩
      · exact .inl hlimit
      · rw [show limit = some m from hlimit]
        exact .inr ⟨item, hfind, limitOf_eq_ok_iff.1 hm⟩
    · intro sofar limit entry hkey hread
      rw [readLimit, if_pos hkey] at hread
      exact map_eq_ok_iff.1 hread
    · intro sofar limit entry hkey hread
      rw [readLimit, if_neg hkey] at hread
      cases hread

theorem limitIn_eq_ok_iff (hentries : entries.Distinct) :
    limitIn none entries = .ok limit ↔ DescribesLimit entries limit := by
  refine ⟨describesLimit_of_limitIn hentries, fun h => ?_⟩
  cases hlimit : limitIn none entries with
  | ok limit' =>
    have hlimit' := describesLimit_of_limitIn hentries hlimit
    rw [hlimit'.limit.unique h.limit IsLimit.unique]
  | error c =>
    obtain ⟨before, entry, after, rfl, -, hoffence⟩ := limitIn_eq_error_iff.1 hlimit
    exact absurd hoffence (h.no_offence hentries entry (by simp) c)

theorem DescribesLimit.rearranged (hentries : entries.Distinct)
    (h : entries.Rearranged entries') :
    DescribesLimit entries limit ↔ DescribesLimit entries' limit := by
  have hlimit : Given entries "match_limit" none IsLimit limit ↔
      Given entries' "match_limit" none IsLimit limit :=
    Given.rearranged hentries h fun _ hvalue => by simp only [IsLimit, hvalue.eq_integer_iff]
  constructor
  · rintro ⟨hkeys, hvalue⟩
    exact ⟨fun name hname => hkeys name (h.mem_names.2 hname), hlimit.1 hvalue⟩
  · rintro ⟨hkeys, hvalue⟩
    exact ⟨fun name hname => hkeys name (h.mem_names.1 hname), hlimit.2 hvalue⟩

theorem HoldsLimit.rearranged {value value' : Toml.Value} (hvalue : value.Distinct)
    (h : value.Rearranged value') : HoldsLimit value limit ↔ HoldsLimit value' limit := by
  cases h with
  | table horder hnames heach =>
    have hentries := Toml.Value.Distinct.table_iff.1 hvalue
    have hmoved : Entries.Rearranged _ _ := .table horder hnames heach
    constructor
    · rintro ⟨origin, entries, ⟨⟩, hdescribes⟩
      exact ⟨_, _, rfl, (DescribesLimit.rearranged hentries hmoved).1 hdescribes⟩
    · rintro ⟨origin, entries, ⟨⟩, hdescribes⟩
      exact ⟨_, _, rfl, (DescribesLimit.rearranged hentries hmoved).2 hdescribes⟩
  | _ => simp [HoldsLimit]

/-! ### Single entries -/

theorem languageOf_eq_ok_iff {l : Language} :
    languageOf item = .ok l ↔ NamesLanguage item.2 l := by
  obtain ⟨span, value⟩ := item
  unfold NamesLanguage
  cases value with
  | text name =>
    rw [languageOf]
    cases hname : Language.ofName? name <;> simp [hname]
  | _ => simp [languageOf]

theorem ofSpelling?_eq_some_iff {name : String} {e : Encoding} :
    Encoding.ofSpelling? name = some e ↔
      (name, e) ∈ [("utf-8", .utf8), ("utf8", .utf8), ("utf-16", .utf16), ("utf16", .utf16)] := by
  unfold Encoding.ofSpelling? Encoding.spellings
  simp only [List.lookup_cons, List.lookup_nil, List.mem_cons, Prod.mk.injEq, List.not_mem_nil,
    or_false]
  grind

theorem ofSpelling?_eq_none_iff {name : String} :
    Encoding.ofSpelling? name = none ↔ name ∉ ["utf-8", "utf8", "utf-16", "utf16"] := by
  unfold Encoding.ofSpelling?
  rw [List.lookup_eq_none_iff]
  simp [Encoding.spellings]

theorem encodingOf_eq_ok_iff {e : Encoding} (htable : item.2.isTable = false) :
    encodingOf item = .ok e ↔ NamesEncoding item.2 e := by
  obtain ⟨span, value⟩ := item
  simp only [NamesEncoding, ← ofSpelling?_eq_some_iff]
  cases value with
  | text name =>
    rw [encodingOf, encodingNamed]
    cases hname : Encoding.ofSpelling? name <;> simp [hname]
  | table origin entries => cases htable
  | _ => simp [encodingOf]

theorem queryOf_eq_ok_iff (harray : item.2.isArray = false) (hitem : item.2.Distinct) :
    queryOf item = .ok limit ↔ HoldsLimit item.2 limit := by
  obtain ⟨span, value⟩ := item
  unfold HoldsLimit
  cases value with
  | table origin entries =>
    rw [queryOf, limitIn_eq_ok_iff (Toml.Value.Distinct.table_iff.1 hitem)]
    simp
  | array items => cases harray
  | tables elements => cases harray
  | _ => simp [queryOf]

variable {found found' : Found} {entry : Key × Item}

theorem readEntry_of_offence (h : Offence entry c)
    (hencoding : entry.1.name = "encoding" → entry.2.2.isTable = false)
    (hquery : entry.1.name = "query" → entry.2.2.isArray = false) :
    readEntry found entry = .error c := by
  cases h with
  | unknownKey hkey =>
    simp only [List.mem_cons, List.not_mem_nil, or_false, not_or] at hkey
    simp [readEntry, hkey]
  | @languageNotText key span value hkey hvalue =>
    simp only [readEntry, hkey, if_true, map_eq_error_iff]
    cases value with
    | text name => exact absurd rfl (hvalue name)
    | _ => rfl
  | unknownLanguage hkey hname => simp [readEntry, hkey, map_eq_error_iff, languageOf, hname]
  | @encodingNotText key span value hkey hvalue =>
    simp only [readEntry, hkey, String.reduceEq, if_false, if_true, map_eq_error_iff]
    cases value with
    | text name => exact absurd rfl (hvalue name)
    | table origin entries => cases hencoding hkey
    | _ => rfl
  | unknownEncoding hkey hname =>
    have hspelling := ofSpelling?_eq_none_iff.2 hname
    simp [readEntry, hkey, map_eq_error_iff, encodingOf, encodingNamed, hspelling]
  | queryDate hkey => simp [readEntry, hkey, map_eq_error_iff, queryOf]
  | @queryNotTable key span value hkey hvalue hdate =>
    simp only [readEntry, hkey, String.reduceEq, if_false, if_true, map_eq_error_iff]
    cases value with
    | table origin entries => cases hvalue
    | array items => cases hquery hkey
    | tables elements => cases hquery hkey
    | dateTime => exact absurd rfl hdate
    | _ => rfl
  | inQuery hkey hfirst =>
    have hlimit := limitIn_eq_error_iff.2 hfirst
    simp [readEntry, hkey, map_eq_error_iff, queryOf, hlimit]

theorem offence_of_readEntry (h : readEntry found entry = .error c)
    (hencoding : entry.1.name = "encoding" → entry.2.2.isTable = false)
    (hquery : entry.1.name = "query" → entry.2.2.isArray = false) : Offence entry c := by
  obtain ⟨key, span, value⟩ := entry
  rw [readEntry] at h
  split at h
  · rename_i hkey
    rw [map_eq_error_iff] at h
    cases value with
    | text name =>
      rw [languageOf] at h
      split at h
      · cases h
      · cases h
        exact .unknownLanguage hkey ‹_›
    | _ =>
      cases h
      exact .languageNotText hkey (by simp)
  split at h
  · rename_i hkey
    rw [map_eq_error_iff] at h
    cases value with
    | text name =>
      rw [encodingOf, encodingNamed] at h
      split at h
      · cases h
      · cases h
        exact .unknownEncoding hkey (ofSpelling?_eq_none_iff.1 ‹_›)
    | table origin entries => cases hencoding hkey
    | _ =>
      cases h
      exact .encodingNotText hkey (by simp)
  split at h
  · rename_i hkey
    rw [map_eq_error_iff] at h
    cases value with
    | table origin entries => exact .inQuery hkey (limitIn_eq_error_iff.1 h)
    | array items => cases hquery hkey
    | tables elements => cases hquery hkey
    | dateTime =>
      cases h
      exact .queryDate hkey
    | _ =>
      cases h
      exact .queryNotTable hkey rfl (by simp)
  · cases h
    exact .unknownKey (by simp [*])

/-- What an entry that is read adds to the settings found so far. -/
theorem readEntry_cases (h : readEntry found entry = .ok found') :
    (entry.1.name = "language" ∧ ∃ l, languageOf entry.2 = .ok l ∧
      found' = { found with language := some l }) ∨
    (entry.1.name = "encoding" ∧ ∃ e, encodingOf entry.2 = .ok e ∧
      found' = { found with encoding := some e }) ∨
    (entry.1.name = "query" ∧ ∃ limit, queryOf entry.2 = .ok limit ∧
      found' = { found with query := some limit }) := by
  obtain ⟨key, item⟩ := entry
  rw [readEntry] at h
  split at h
  · exact .inl ⟨‹_›, map_eq_ok_iff.1 h⟩
  split at h
  · exact .inr (.inl ⟨‹_›, map_eq_ok_iff.1 h⟩)
  split at h
  · exact .inr (.inr ⟨‹_›, map_eq_ok_iff.1 h⟩)
  · cases h

end SyntaxView.Settings
