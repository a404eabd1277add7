import SyntaxView.Proofs.Handles

/-!
# Languages from file names

A parser without a language takes the one that the name of a file suggests, and it does so before
the file is read.  So what a file leaves behind in a parser is told by its name and the engine's
verdict on the language alone, be the file read and parsed or not (`Parser.snd_parseFile`): a parser
that had a language is as before, and one that had none has the language of the first name that
suggests one which the engine takes.

A file that cannot be parsed therefore changes nothing but the language of a parser that has none
(`Parser.parseFile_fault`), and this it does change: the next file is then parsed in the language of
a file that is not even there (`Parser.language_of_missing_file`).
-/

namespace SyntaxView

namespace Language

/-- The language that the name of a file suggests.  The name of a directory suggests none. -/
def suggested? (files : FileSystem) (path : String) : Option Language :=
  if files.isDirectory path then none else (Path.extension? path).bind ofExtension?

/-- The language that the name of a file suggests, if the engine takes it. -/
def adopted? (check : LanguageCheck) (files : FileSystem) (path : String) : Option Language :=
  (suggested? files path).filter fun l => (check l).isNone

variable {check : LanguageCheck} {files : FileSystem} {path : String} {l : Language}

theorem adopted?_of_accepted (h : suggested? files path = some l) (hcheck : check l = none) :
    adopted? check files path = some l := by
  rw [adopted?, h, Option.filter_some, hcheck]
  rfl

theorem adopted?_eq_none_iff :
    adopted? check files path = none ↔ ∀ l, suggested? files path = some l → check l ≠ none := by
  simp [adopted?, Option.filter_eq_none_iff]

end Language

namespace Parser

variable {p : Parser} {engine : ParseEngine} {check : LanguageCheck} {files : FileSystem}
variable {id : Nat} {path : String}

/-- Why there is no parser for a file: the path is that of a directory, or the engine refuses the
language that the name suggests. -/
def RefusesFile (check : LanguageCheck) (files : FileSystem) (path : String) (fault : Fault) :
    Prop :=
  Language.suggested? files path = none ∧ fault = .badArgument (.directory path) ∨
    ∃ l remark, Language.suggested? files path = some l ∧ check l = some remark ∧
      fault = .languageRefused l.name remark

theorem RefusesFile.adopted?_eq_none {fault : Fault} (h : RefusesFile check files path fault) :
    Language.adopted? check files path = none := by
  rcases h with ⟨hnone, -⟩ | ⟨l, remark, hsuggested, hcheck, -⟩
  · rw [Language.adopted?_eq_none_iff, hnone]
    nofun
  · rw [Language.adopted?_eq_none_iff, hsuggested]
    rintro l' ⟨⟩ hnone
    cases hcheck.symm.trans hnone

/-- The parser for a file has the suggested language if it had none, or is refused. -/
theorem forFile_cases (p : Parser) (check : LanguageCheck) (files : FileSystem) (path : String) :
    p.forFile check files path
        = .ok { p with language := p.language.or (Language.adopted? check files path) } ∧
      (p.language = none → ∀ l, Language.suggested? files path = some l → check l = none) ∨
    p.language = none ∧
      ∃ fault, p.forFile check files path = .error fault ∧ RefusesFile check files path fault := by
  obtain ⟨serial, language, encoding⟩ := p
  cases language with
  | some l => exact .inl ⟨rfl, nofun⟩
  | none =>
    unfold forFile Language.ofPath RefusesFile
    cases hsuggested : Language.suggested? files path with
    | none =>
      have hadopted : Language.adopted? check files path = none := by
        rw [Language.adopted?_eq_none_iff, hsuggested]
        nofun
      rw [Language.suggested?] at hsuggested
      split_ifs at hsuggested ⊢ with hdirectory
      · exact .inr ⟨rfl, _, rfl, .inl ⟨rfl, rfl⟩⟩
      · rw [hsuggested, hadopted]
        exact .inl ⟨rfl, nofun⟩
    | some l =>
      have hpath : files.isDirectory path = false ∧
          (Path.extension? path).bind Language.ofExtension? = some l := by
        rw [Language.suggested?] at hsuggested
        split_ifs at hsuggested with hdirectory
        exact ⟨by simpa using hdirectory, hsuggested⟩
      rw [hpath.1, hpath.2]
      cases hcheck : check l with
      | none =>
        refine .inl ⟨?_, fun _ l' hl' => ?_⟩
        · rw [Language.adopted?_of_accepted hsuggested hcheck]
          exact setLanguage_of_accepted _ hcheck
        · obtain rfl := Option.some.inj hl'
          exact hcheck
      | some remark =>
        exact .inr ⟨rfl, _, setLanguage_of_refused _ hcheck, .inr ⟨l, remark, rfl, hcheck, rfl⟩⟩

/-- **What a file leaves behind** in a parser, whether it could be parsed or not. -/
theorem snd_parseFile (p : Parser) (engine : ParseEngine) (check : LanguageCheck)
    (files : FileSystem) (id : Nat) (path : String) :
    (p.parseFile engine check files id path).2
      = { p with language := p.language.or (Language.adopted? check files path) } := by
  unfold parseFile
  rcases p.forFile_cases check files path with ⟨hfor, -⟩ | ⟨-, fault, hfor, hrefuses⟩
  · rw [hfor]
    cases files.readText path with
    | error e => rfl
    | ok text => rfl
  · rw [hfor, hrefuses.adopted?_eq_none, Option.or_none]

/-- A parser that has a language after the name has been looked at can fail in two ways only. -/
theorem fault_of_parseFile {l : Language} {fault : Fault}
    (hlanguage : p.language.or (Language.adopted? check files path) = some l)
    (h : (p.parseFile engine check files id path).1 = .error fault) :
    fault = .parseFailed ∨
      ∃ e, files.readText path = .error e ∧ fault = .unreadable path e.message := by
  unfold parseFile at h
  rcases p.forFile_cases check files path with ⟨hfor, -⟩ | ⟨hnone, _, -, hrefuses⟩
  · rw [hfor, hlanguage] at h
    cases hread : files.readText path with
    | error e =>
      rw [hread] at h
      exact .inr ⟨e, rfl, (Except.error.inj h).symm⟩
    | ok text =>
      rw [hread] at h
      refine .inl ?_
      unfold parse parseSource at h
      dsimp only at h
      split at h
      · exact (Except.error.inj h).symm
      · cases h
  · rw [hnone, hrefuses.adopted?_eq_none] at hlanguage
    cases hlanguage

/-- A directory is refused by a parser without a language before it is read. -/
theorem parseFile_of_directory (hnone : p.language = none)
    (hdirectory : files.isDirectory path = true) :
    p.parseFile engine check files id path = (.error (.badArgument (.directory path)), p) := by
  rw [parseFile, forFile, hnone]
  dsimp only
  rw [Language.ofPath, if_pos hdirectory]

/-- If the engine refuses the suggested language the file is not even read. -/
theorem parseFile_of_refused {l : Language} {remark : String} (hnone : p.language = none)
    (hsuggested : Language.suggested? files path = some l) (hcheck : check l = some remark) :
    p.parseFile engine check files id path = (.error (.languageRefused l.name remark), p) := by
  rcases p.forFile_cases check files path with ⟨-, haccepted⟩ | ⟨-, fault, hfor, hrefuses⟩
  · cases hcheck.symm.trans (haccepted hnone l hsuggested)
  · rw [parseFile, hfor]
    rcases hrefuses with ⟨hnothing, -⟩ | ⟨l', remark', hl', hremark, rfl⟩
    · cases hnothing.symm.trans hsuggested
    · obtain rfl := Option.some.inj (hl'.symm.trans hsuggested)
      obtain rfl := Option.some.inj (hremark.symm.trans hcheck)
      rfl

/-- **A file that cannot be parsed** leaves a parser with the encoding it had.  It leaves the whole
parser as it was just if the parser had a language, or the name of the file suggests none, as that
of a directory does, or the engine refuses the one it suggests; in the last two cases this is what
went wrong.  Otherwise the parser has the suggested language afterwards, and what went wrong is that
the file could not be read or the engine gave up.  So the next file that is parsed is in the
language that the parser had to begin with, else in the one taken from the file that could not be
parsed, else in the one taken from its own name. -/
theorem parseFile_fault (p : Parser) (engine : ParseEngine) (check : LanguageCheck)
    (files : FileSystem) (id : Nat) (path : String) (fault : Fault)
    (h : (p.parseFile engine check files id path).1 = .error fault) :
    let after := (p.parseFile engine check files id path).2
    after.encoding = p.encoding ∧
    (after = p ↔
      p.language ≠ none ∨ ∀ l, Language.suggested? files path = some l → check l ≠ none) ∧
    (p.language = none → files.isDirectory path = true →
      fault = .badArgument (.directory path)) ∧
    (∀ l remark, p.language = none → Language.suggested? files path = some l →
      check l = some remark → fault = .languageRefused l.name remark) ∧
    (∀ l, p.language = none → Language.suggested? files path = some l → check l = none →
      p.setLanguage check l = .ok after ∧
      (fault = .parseFailed ∨
        ∃ e, files.readText path = .error e ∧ fault = .unreadable path e.message)) ∧
    (∀ (engine' : ParseEngine) (check' : LanguageCheck) (files' : FileSystem) (id' : Nat)
      (next : String) (t : Tree),
      (after.parseFile engine' check' files' id' next).1 = .ok t →
        some t.language = p.language.or ((Language.adopted? check files path).or
          (Language.adopted? check' files' next))) := by
  intro after
  have hafter : after = { p with language := p.language.or (Language.adopted? check files path) } :=
    p.snd_parseFile engine check files id path
  refine ⟨by rw [hafter], ⟨?_, ?_⟩, ?_, ?_, ?_, ?_⟩
  · intro hsame
    by_contra! hchanged
    obtain ⟨hnone, l, hsuggested, hcheck⟩ := hchanged
    have hlanguage : after.language = some l := by
      rw [hafter, hnone, Language.adopted?_of_accepted hsuggested hcheck, Option.none_or]
    rw [hsame, hnone] at hlanguage
    cases hlanguage
  · intro hkept
    have hlanguage : p.language.or (Language.adopted? check files path) = p.language := by
      rcases hkept with hsome | hrefused
      · obtain ⟨l, hl⟩ := Option.ne_none_iff_exists'.1 hsome
        rw [hl, Option.some_or]
      · rw [Language.adopted?_eq_none_iff.2 hrefused, Option.or_none]
    rw [hafter, hlanguage]
  · intro hnone hdirectory
    rw [parseFile_of_directory hnone hdirectory] at h
    exact (Except.error.inj h).symm
  · intro l remark hnone hsuggested hcheck
    rw [parseFile_of_refused hnone hsuggested hcheck] at h
    exact (Except.error.inj h).symm
  · intro l hnone hsuggested hcheck
    have hlanguage : p.language.or (Language.adopted? check files path) = some l := by
      rw [hnone, Language.adopted?_of_accepted hsuggested hcheck, Option.none_or]
    refine ⟨?_, fault_of_parseFile hlanguage h⟩
    rw [setLanguage_of_accepted p hcheck, hafter, hlanguage]
  · intro engine' check' files' id' next t ht
    obtain ⟨-, -, -, -, hlanguage⟩ := of_parseFile ht
    rw [← hlanguage, snd_parseFile, hafter]
    exact Option.or_assoc

/-- A parser of Rust files keeps its language when it fails on a file whose name suggests Python,
and a parser without a language has none afterwards if the engine refuses Python. -/
theorem parseFile_fault_kept :
    let files := FileStore.empty.system
    let engine : ParseEngine := fun _ _ _ => none
    let check : LanguageCheck := fun l => if l = .python then some "too old" else none
    let p : Parser := ⟨1, some .rust, .utf16⟩
    let q : Parser := ⟨2, none, .utf8⟩
    Language.suggested? files "missing.py" = some .python ∧
    (p.parseFile engine check files 1 "missing.py").1
      = .error (.unreadable "missing.py" IoError.notFound.message) ∧
    (p.parseFile engine check files 1 "missing.py").2 = p ∧
    (q.parseFile engine check files 1 "missing.py").1
      = .error (.languageRefused "Python" "too old") ∧
    (q.parseFile engine check files 1 "missing.py").2 = q := by
  intro files engine check p q
  have hsuggested : Language.suggested? files "missing.py" = some .python := by decide +kernel
  have hunread : (p.parseFile engine check files 1 "missing.py").1
      = .error (.unreadable "missing.py" IoError.notFound.message) := rfl
  have hrefused : (q.parseFile engine check files 1 "missing.py").1
      = .error (.languageRefused "Python" "too old") := rfl
  obtain ⟨-, hp, -⟩ := p.parseFile_fault engine check files 1 "missing.py" _ hunread
  obtain ⟨-, hq, -⟩ := q.parseFile_fault engine check files 1 "missing.py" _ hrefused
  refine ⟨hsuggested, hunread, hp.2 (.inl nofun), hrefused, hq.2 (.inr fun l hl => ?_)⟩
  obtain rfl := Option.some.inj (hsuggested.symm.trans hl)
  nofun

/-- A parser without a language that is given a file which is not there has the language of its name
afterwards, and parses the next file, which is one of another language, in it. -/
theorem language_of_missing_file :
    let engine : ParseEngine := fun _ _ _ => some (.node default [])
    let check : LanguageCheck := fun _ => none
    let files := (FileStore.ofEntries [] [("main.js", [0x61])]).system
    let p := Parser.new 1
    let failed := p.parseFile engine check files 1 "missing.py"
    failed.1 = .error (.unreadable "missing.py" IoError.notFound.message) ∧
    p.language = none ∧ failed.2.language = some .python ∧
    Language.suggested? files "main.js" = some .javascript ∧
    (failed.2.parseFile engine check files 1 "main.js").1
      = .ok ⟨1, .node default [], .utf8 "a", .python⟩ := by
  intro engine check files p failed
  refine ⟨?_, rfl, ?_, ?_, ?_⟩
  · rfl
  · decide +kernel
  · decide +kernel
  · rfl

end Parser

end SyntaxView
