import SyntaxView.Proofs.SettingsEntries

/-!
# Documents of settings

Which documents are settings, of which settings, and what is reported of the others.  A document has
the settings that it describes (`read_eq_ok_iff`); of any other the first offence is reported, and
that there is no language only if there is no offence (`read_eq_error_iff`).

So the order of the keys decides which of several offences is reported and nothing else: a document
with the same data in another order has the same settings (`Describes.rearranged`).  For texts all
this is put together in `load_document`.
-/

namespace SyntaxView.Settings

open Toml (Entries Item Key)

variable {document document' : Entries} {found found' : Found} {entry : Key × Item}
  {settings settings' : Settings} {c : Complaint}

/-! ### Documents -/

/-- Reading an entry of a conventional document fails on the offences and only on them. -/
theorem Conventional.readEntry_eq_error_iff (h : Conventional document)
    (hdocument : document.Distinct) (hentry : entry ∈ document) (found : Found) (c : Complaint) :
    readEntry found entry = .error c ↔ Offence entry c := by
  have hencoding : entry.1.name = "encoding" → entry.2.2.isTable = false := fun hkey =>
    h.encoding entry.2 (hdocument.find?_eq_some_iff.2 ⟨entry.1, hkey, hentry⟩)
  have hquery : entry.1.name = "query" → entry.2.2.isArray = false := fun hkey =>
    h.query entry.2 (hdocument.find?_eq_some_iff.2 ⟨entry.1, hkey, hentry⟩)
  exact ⟨fun hread => offence_of_readEntry hread hencoding hquery,
    fun hoffence => readEntry_of_offence hoffence hencoding hquery⟩

/-- The settings found in a whole document are those of its keys. -/
theorem found_of_foldlM (hdocument : document.Distinct)
    (h : document.foldlM readEntry ⟨none, none, none⟩ = .ok found) :
    (document.find? "language" = none ∧ found.language = none ∨
      ∃ item l, document.find? "language" = some item ∧ languageOf item = .ok l ∧
        found.language = some l) ∧
    (document.find? "encoding" = none ∧ found.encoding = none ∨
      ∃ item e, document.find? "encoding" = some item ∧ encodingOf item = .ok e ∧
        found.encoding = some e) ∧
    (document.find? "query" = none ∧ found.query = none ∨
      ∃ item limit, document.find? "query" = some item ∧ queryOf item = .ok limit ∧
        found.query = some limit) := by
  refine ⟨field_foldlM Found.language _ _ ?_ ?_ hdocument.names h,
    field_foldlM Found.encoding _ _ ?_ ?_ hdocument.names h,
    field_foldlM Found.query _ _ ?_ ?_ hdocument.names h⟩
  all_goals
    intro found found' entry hkey hread
    rcases readEntry_cases hread with
      ⟨hname, value, hvalue, rfl⟩ | ⟨hname, value, hvalue, rfl⟩ | ⟨hname, value, hvalue, rfl⟩
    all_goals simp_all

theorem read_eq_ok_iff_found :
    read document = .ok settings ↔
      ∃ found, document.foldlM readEntry ⟨none, none, none⟩ = .ok found ∧
        found.language = some settings.language ∧
        settings.encoding = found.encoding.getD .utf8 ∧
        settings.matchLimit = found.query.getD none := by
  unfold read
  cases document.foldlM readEntry ⟨none, none, none⟩ with
  | error c => simp [bind, Except.bind]
  | ok found =>
    obtain ⟨language, encoding, query⟩ := found
    obtain ⟨l, e, limit⟩ := settings
    cases language <;> simp [bind, Except.bind, pure, Except.pure, eq_comm]

theorem read_eq_error_iff_found :
    read document = .error c ↔
      document.foldlM readEntry ⟨none, none, none⟩ = .error c ∨
      ∃ found, document.foldlM readEntry ⟨none, none, none⟩ = .ok found ∧
        found.language = none ∧ c = ⟨none, .missingLanguage⟩ := by
  unfold read
  cases document.foldlM readEntry ⟨none, none, none⟩ with
  | error c => simp [bind, Except.bind]
  | ok found =>
    obtain ⟨language, encoding, query⟩ := found
    cases language <;> simp [bind, Except.bind, pure, Except.pure, eq_comm]

/-- Settings that are read are described. -/
theorem describes_of_read (hdocument : document.Distinct)
    (hconventional : Conventional document) (h : read document = .ok settings) :
    Describes document settings := by
  obtain ⟨found, hfold, hl, he, hq⟩ := read_eq_ok_iff_found.1 h
  have hnone := (exists_foldlM_eq_ok_iff fun entry hentry found c =>
    hconventional.readEntry_eq_error_iff hdocument hentry found c).1 ⟨found, hfold⟩
  obtain ⟨hlanguage, hencoding, hquery⟩ := found_of_foldlM hdocument hfold
  constructor
  · -- a key of another name would be an offence
    intro name hname
    obtain ⟨entry, hentry, rfl⟩ := List.mem_map.1 hname
    by_contra hkey
    exact hnone entry hentry _ (.unknownKey hkey)
  · rcases hlanguage with ⟨-, hlanguage⟩ | ⟨item, l, hfind, hvalue, hlanguage⟩
    · cases hlanguage.symm.trans hl
    · cases hlanguage.symm.trans hl
      exact ⟨item, hfind, languageOf_eq_ok_iff.1 hvalue⟩
  · rcases hencoding with ⟨hfind, hencoding⟩ | ⟨item, e, hfind, hvalue, hencoding⟩
    · rw [hencoding] at he
      exact .inl ⟨hfind, he⟩
    · rw [hencoding] at he
      cases he
      exact .inr ⟨item, hfind, (encodingOf_eq_ok_iff (hconventional.encoding item hfind)).1 hvalue⟩
  · rcases hquery with ⟨hfind, hquery⟩ | ⟨item, limit, hfind, hvalue, hquery⟩
    · rw [hquery] at hq
      exact .inl ⟨hfind, hq⟩
    · rw [hquery] at hq
      cases hq
      exact .inr ⟨item, hfind, (queryOf_eq_ok_iff (hconventional.query item hfind)
        (hdocument.value hfind)).1 hvalue⟩

/-- Described settings leave nothing to complain about. -/
theorem Describes.no_offence (h : Describes document settings) (hdocument : document.Distinct) :
    ∀ entry ∈ document, ∀ c, ¬ Offence entry c := by
  intro entry hentry c hoffence
  have hlanguage (hkey : entry.1.name = "language") :
      NamesLanguage entry.2.2 settings.language := by
    obtain ⟨item, hsome, hitem⟩ := h.language
    have hfind := hdocument.find?_eq_some_iff.2 ⟨entry.1, hkey, hentry⟩
    rwa [Option.some.inj (hfind.symm.trans hsome)]
  cases hoffence with
  | unknownKey hkey => exact hkey (h.keys _ (Entries.mem_names_of_mem hentry))
  | languageNotText hkey hvalue =>
    obtain ⟨name, htext, -⟩ := hlanguage hkey
    exact hvalue name htext
  | unknownLanguage hkey hname =>
    obtain ⟨name, ⟨⟩, hl⟩ := hlanguage hkey
    cases hname.symm.trans hl
  | encodingNotText hkey hvalue =>
    obtain ⟨name, htext, -⟩ := h.encoding.of_mem hdocument hentry hkey
    exact hvalue name htext
  | unknownEncoding hkey hname =>
    obtain ⟨name, ⟨⟩, he⟩ := h.encoding.of_mem hdocument hentry hkey
    rw [← ofSpelling?_eq_some_iff] at he
    cases (ofSpelling?_eq_none_iff.2 hname).symm.trans he
  | queryDate hkey =>
    obtain ⟨origin, entries, ⟨⟩, -⟩ := h.query.of_mem hdocument hentry hkey
  | queryNotTable hkey hvalue hdate =>
    obtain ⟨origin, entries, htable, -⟩ := h.query.of_mem hdocument hentry hkey
    cases htable
    cases hvalue
  | inQuery hkey hfirst =>
    obtain ⟨origin, entries, ⟨⟩, hlimit⟩ := h.query.of_mem hdocument hentry hkey
    obtain ⟨before, inner, after, rfl, -, hinner⟩ := hfirst
    have hentries := Toml.Value.Distinct.table_iff.1 (hdocument.each _ hentry)
    exact hlimit.no_offence hentries inner (by simp) c hinner

theorem Describes.unique (h : Describes document settings) (h' : Describes document settings') :
    settings = settings' := by
  obtain ⟨l, e, limit⟩ := settings
  obtain ⟨l', e', limit'⟩ := settings'
  have hlanguage : l = l' := by
    obtain ⟨item, hfind, name, hname, hl⟩ := h.language
    obtain ⟨item', hfind', name', hname', hl'⟩ := h'.language
    cases hfind.symm.trans hfind'
    cases hname.symm.trans hname'
    exact Option.some.inj (hl.symm.trans hl')
  have hencoding : e = e' := by
    refine h.encoding.unique h'.encoding ?_
    rintro value e e' ⟨name, rfl, he⟩ ⟨name', ⟨⟩, he'⟩
    rw [← ofSpelling?_eq_some_iff] at he he'
    exact Option.some.inj (he.symm.trans he')
  have hquery : limit = limit' := by
    refine h.query.unique h'.query ?_
    rintro value limit limit' ⟨origin, entries, rfl, hlimit⟩ ⟨origin', entries', ⟨⟩, hlimit'⟩
    exact hlimit.limit.unique hlimit'.limit IsLimit.unique
  rw [hlanguage, hencoding, hquery]

/-- What is reported of a document: the first offence or, without any, that there is no language. -/
theorem read_eq_error_iff (hdocument : document.Distinct) (hconventional : Conventional document) :
    read document = .error c ↔
      FirstOffence Offence document c ∨
      (∀ entry ∈ document, ∀ c, ¬ Offence entry c) ∧ document.find? "language" = none ∧
        c = ⟨none, .missingLanguage⟩ := by
  have hstep : ∀ entry ∈ document, ∀ found c, readEntry found entry = .error c ↔ Offence entry c :=
    fun entry hentry => hconventional.readEntry_eq_error_iff hdocument hentry
  rw [read_eq_error_iff_found, foldlM_eq_error_iff hstep]
  refine or_congr_right ?_
  constructor
  · rintro ⟨found, hfold, hnone, hc⟩
    refine ⟨(exists_foldlM_eq_ok_iff hstep).1 ⟨found, hfold⟩, ?_, hc⟩
    rcases (found_of_foldlM hdocument hfold).1 with ⟨hfind, -⟩ | ⟨item, l, -, -, hl⟩
    · exact hfind
    · cases hnone.symm.trans hl
  · rintro ⟨hnone, hfind, hc⟩
    obtain ⟨found, hfold⟩ := (exists_foldlM_eq_ok_iff (s := ⟨none, none, none⟩) hstep).2 hnone
    refine ⟨found, hfold, ?_, hc⟩
    rcases (found_of_foldlM hdocument hfold).1 with ⟨-, hl⟩ | ⟨item, l, hsome, -⟩
    · exact hl
    · cases hfind.symm.trans hsome

/-- The settings of a document are those that it describes. -/
theorem read_eq_ok_iff (hdocument : document.Distinct) (hconventional : Conventional document) :
    read document = .ok settings ↔ Describes document settings := by
  refine ⟨describes_of_read hdocument hconventional, fun h => ?_⟩
  cases hread : read document with
  | ok settings' => rw [(describes_of_read hdocument hconventional hread).unique h]
  | error c =>
    rcases (read_eq_error_iff hdocument hconventional).1 hread with
      ⟨before, entry, after, rfl, -, hoffence⟩ | ⟨-, hnone, -⟩
    · exact absurd hoffence (h.no_offence hdocument entry (by simp) c)
    · obtain ⟨item, hsome, -⟩ := h.language
      cases hnone.symm.trans hsome

/-! ### The order of the keys -/

theorem Conventional.rearranged (hdocument : document.Distinct)
    (h : document.Rearranged document') (hconventional : Conventional document) :
    Conventional document' := by
  have hcarry {name : String} {is : Toml.Value → Bool}
      (his : ∀ {v v' : Toml.Value}, v.Rearranged v' → is v = is v')
      (hfalse : ∀ item, document.find? name = some item → is item.2 = false) (item' : Item)
      (hfind' : document'.find? name = some item') : is item'.2 = false := by
    by_contra htrue
    obtain ⟨item, hfind, hitem⟩ := (h.exists_find?_iff (P := fun value => is value ≠ false)
      hdocument name fun _ hvalue => by rw [his hvalue]).2 ⟨item', hfind', htrue⟩
    exact hitem (hfalse item hfind)
  exact ⟨hcarry Toml.Value.Rearranged.isTable_eq hconventional.encoding,
    hcarry Toml.Value.Rearranged.isArray_eq hconventional.query⟩

/-- Neither the order of the keys nor the places of the values change what is described. -/
theorem Describes.rearranged (hdocument : document.Distinct) (h : document.Rearranged document') :
    Describes document settings ↔ Describes document' settings := by
  have hlanguage := h.exists_find?_iff (P := fun value => NamesLanguage value settings.language)
    hdocument "language" fun _ hvalue => by simp only [NamesLanguage, hvalue.eq_text_iff]
  have hencoding : Given document "encoding" .utf8 NamesEncoding settings.encoding ↔
      Given document' "encoding" .utf8 NamesEncoding settings.encoding :=
    Given.rearranged hdocument h fun _ hvalue => by simp only [NamesEncoding, hvalue.eq_text_iff]
  have hquery : Given document "query" none HoldsLimit settings.matchLimit ↔
      Given document' "query" none HoldsLimit settings.matchLimit :=
    Given.rearranged hdocument h HoldsLimit.rearranged
  constructor
  · rintro ⟨hkeys, hl, he, hq⟩
    exact ⟨fun name hname => hkeys name (h.mem_names.2 hname), hlanguage.1 hl, hencoding.1 he,
      hquery.1 hq⟩
  · rintro ⟨hkeys, hl, he, hq⟩
    exact ⟨fun name hname => hkeys name (h.mem_names.1 hname), hlanguage.2 hl, hencoding.2 he,
      hquery.2 hq⟩

/-! ### Texts -/

theorem load_eq_ok_iff {text : String} (h : Toml.read? text.toList = some document) :
    load text = .ok settings ↔ read document = .ok settings := by
  cases hread : read document <;> simp [load, loadText, h, hread]

theorem load_eq_error_iff {text : String} {error : LoadError}
    (h : Toml.read? text.toList = some document) :
    load text = .error error ↔
      ∃ c, read document = .error c ∧ error = .invalid none (c.report text.toList) := by
  cases hread : read document <;> simp [load, loadText, h, hread, eq_comm]

/-- **The settings of a text** that is TOML, and what is reported of a text without any. -/
theorem load_document {text : String} (hread : Toml.read? text.toList = some document)
    (hconventional : Conventional document) :
    (∀ settings, load text = .ok settings ↔ Describes document settings) ∧
    (∀ text' document', Toml.read? text'.toList = some document' →
      document.Rearranged document' →
        ∀ settings, load text' = .ok settings ↔ load text = .ok settings) ∧
    ∀ error, load text = .error error ↔
      ∃ c : Complaint, error = .invalid none (c.report text.toList) ∧
        (FirstOffence Offence document c ∨
          (∀ entry ∈ document, ∀ c, ¬ Offence entry c) ∧ document.find? "language" = none ∧
            c = ⟨none, .missingLanguage⟩) := by
  have hdocument := Toml.distinct_of_read? hread
  refine ⟨fun settings => ?_, fun text' document' hread' hrearranged settings => ?_,
    fun error => ?_⟩
  · rw [load_eq_ok_iff hread, read_eq_ok_iff hdocument hconventional]
  · have hconventional' := hconventional.rearranged hdocument hrearranged
    rw [load_eq_ok_iff hread, load_eq_ok_iff hread', read_eq_ok_iff hdocument hconventional,
      read_eq_ok_iff (Toml.distinct_of_read? hread') hconventional',
      Describes.rearranged hdocument hrearranged]
  · rw [load_eq_error_iff hread]
    simp only [read_eq_error_iff hdocument hconventional, and_comm]

/-- The same limit under a header and, before the language, under a dotted key; and of two offences
the first. -/
theorem load_document_orders :
    load "language = \"py\"\n[query]\nmatch_limit = 16\n" = .ok ⟨.python, .utf8, some 16⟩ ∧
    load "query.match_limit = 16\nlanguage = \"py\"\n" = .ok ⟨.python, .utf8, some 16⟩ ∧
    load "language = \"klingon\"\ntimeout = 5\n" = .error (.invalid none
      ("TOML parse error at line 1, column 12\n  |\n1 | language = \"klingon\"\n" ++
        "  |            ^^^^^^^^^\nunknown language: klingon\n")) := by
  have hread : Toml.read? "language = \"py\"\n[query]\nmatch_limit = 16\n".toList = some
      [(⟨"language", 41, 33⟩, ⟨30, 26⟩, .text "py"),
       (⟨"query", 24, 19⟩, ⟨25, 18⟩,
        .table .header [(⟨"match_limit", 17, 6⟩, ⟨3, 1⟩, .integer 16)])] := rfl
  have hread' : Toml.read? "query.match_limit = 16\nlanguage = \"py\"\n".toList = some
      [(⟨"query", 39, 34⟩, ⟨39, 34⟩,
        .table .dotted [(⟨"match_limit", 33, 22⟩, ⟨19, 17⟩, .integer 16)]),
       (⟨"language", 16, 8⟩, ⟨5, 1⟩, .text "py")] := rfl
  have hwrong : Toml.read? "language = \"klingon\"\ntimeout = 5\n".toList = some
      [(⟨"language", 33, 25⟩, ⟨22, 13⟩, .text "klingon"),
       (⟨"timeout", 12, 5⟩, ⟨2, 1⟩, .integer 5)] := rfl
  obtain ⟨hsettings, horder, -⟩ := load_document hread
    ⟨by rintro item ⟨⟩, by rintro item ⟨⟩; rfl⟩
  obtain ⟨-, -, herror⟩ := load_document hwrong ⟨by rintro item ⟨⟩, by rintro item ⟨⟩⟩
  have hheaded : load "language = \"py\"\n[query]\nmatch_limit = 16\n"
      = .ok ⟨.python, .utf8, some 16⟩ := by
    refine (hsettings _).2 ⟨by decide, ⟨_, rfl, "py", rfl, by decide⟩, .inl ⟨rfl, rfl⟩,
      .inr ⟨_, rfl, _, _, rfl, by decide, .inr ⟨_, rfl, 16, rfl, by decide⟩⟩⟩
  refine ⟨hheaded, (horder _ _ hread' ?_ _).2 hheaded, (herror _).2 ⟨_, ?_, .inl ⟨[], _, _, rfl, ?_,
    .unknownLanguage rfl (by decide)⟩⟩⟩
  · refine .table (List.Perm.swap _ _ _) rfl ?_
    simp only [List.zip_cons_cons, List.zip_nil_left, List.forall_mem_cons]
    refine ⟨.table (List.Perm.refl _) rfl ?_, .text "py", by simp⟩
    simpa using .integer 16
  · decide +kernel
  · simp

end SyntaxView.Settings
