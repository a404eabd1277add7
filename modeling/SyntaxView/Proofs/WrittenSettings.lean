import SyntaxView.Proofs.ByteCuts
import SyntaxView.Proofs.CharacterCodings
import SyntaxView.Proofs.SettingsEntries
import SyntaxView.Proofs.TomlLines

/-!
# Settings that are written down

A text of settings has a line for the language, may have one for the encoding, and may have a table
with a line for the limit (`Written`).  It is read back as what was written, if the limit is one;
and if it is not, this is what is reported of it: `Settings.load_text`.

The way from the text to the settings has three parts.  The lines come to a document
(`Written.exists_read?`).  The name of a language is found under any of its aliases, however its
letters and the spaces around it are written (`Language.ofName?_spelling`).  And of what the
document holds, only the limit can be wrong (`Written.read_document_of_limit`).
-/

namespace SyntaxView

/-! ### Texts -/

namespace Text

/-- Spaces around a text without white space are trimmed. -/
theorem trim_spaces {s : List Char} (h : ∀ c ∈ s, isWhiteSpace c = false) (i j : Nat) :
    trim (List.replicate i ' ' ++ s ++ List.replicate j ' ') = s := by
  have hspaces : ∀ k, ∀ c ∈ List.replicate k ' ', isWhiteSpace c = true := by
    intro k c hc
    rw [List.eq_of_mem_replicate hc]
    decide
  have hself : ∀ {t : List Char}, (∀ c ∈ t, isWhiteSpace c = false) →
      t.dropWhile isWhiteSpace = t := by
    intro t ht
    cases t with
    | nil => rfl
    | cons c t => exact List.dropWhile_cons_of_neg (by simp [ht c List.mem_cons_self])
  unfold trim
  cases s with
  | nil =>
    -- nothing but spaces
    have hstart : trimStart (List.replicate i ' ' ++ [] ++ List.replicate j ' ') = [] := by
      rw [List.append_nil, List.replicate_append_replicate, trimStart,
        ← List.append_nil (List.replicate (i + j) ' '), List.dropWhile_append_of_pos (hspaces _),
        List.dropWhile_nil]
    rw [hstart]
    rfl
  | cons c s =>
    have hc : isWhiteSpace c = false := h c List.mem_cons_self
    have hstart : trimStart (List.replicate i ' ' ++ (c :: s) ++ List.replicate j ' ')
        = c :: s ++ List.replicate j ' ' := by
      rw [trimStart, List.append_assoc, List.dropWhile_append_of_pos (hspaces i), List.cons_append,
        List.dropWhile_cons_of_neg (by simp [hc])]
    rw [hstart, trimEnd, List.reverse_append, List.reverse_replicate,
      List.dropWhile_append_of_pos (hspaces j), hself fun d hd => h d (List.mem_reverse.mp hd),
      List.reverse_reverse]

/-- What is written in UTF-8 is read. -/
theorem Utf8.decode?_encode (s : List Char) : Utf8.decode? (Utf8.encode s) = some s := by
  induction s with
  | nil => rfl
  | cons c s ih =>
    have hrun : Utf8.run .none (Utf8.encode (c :: s)) = some c :: Utf8.run .none (Utf8.encode s) :=
      (Utf8.completes_utf8EncodeChar c).run_append (Utf8.encode s)
    unfold Utf8.decode? at ih ⊢
    rw [hrun, List.mapM_cons, ih]
    rfl

end Text

namespace Toml

/-- A span of a text is reported by the number of bytes before it. -/
theorem Span.report_between (before s after : List Char) (message : String) :
    (Span.between (s ++ after) after).report (before ++ s ++ after) message
      = Toml.report (before ++ s ++ after) (Text.Utf8.size before)
          (Text.Utf8.size (before ++ s)) message := by
  unfold Span.report Span.between
  simp only [Text.Utf8.size_append]
  congr 1 <;> omega

end Toml

/-! ### Names of languages -/

namespace Language

/-- The characters of which the names of languages are made, in upper and lower case. -/
def IsNameChar (c : Char) : Prop :=
  65 ≤ c.toNat ∧ c.toNat ≤ 90 ∨ 97 ≤ c.toNat ∧ c.toNat ≤ 122 ∨ c.toNat = 43

theorem isNameChar_of_toLower {c : Char}
    (h : (('a' ≤ c.toLower && c.toLower ≤ 'z') || c.toLower == '+') = true) : IsNameChar c := by
  unfold IsNameChar
  by_cases hupper : c.val ≥ 'A'.val ∧ c.val ≤ 'Z'.val
  · exact .inl hupper
  · have hlower : c.toLower = c := dif_neg hupper
    rw [hlower] at h
    simp only [Bool.or_eq_true, Bool.and_eq_true, decide_eq_true_eq, beq_iff_eq] at h
    rcases h with hletter | rfl
    · exact .inr (.inl hletter)
    · exact .inr (.inr rfl)

theorem IsNameChar.isWhiteSpace_eq {c : Char} (h : IsNameChar c) : Text.isWhiteSpace c = false := by
  unfold IsNameChar at h
  simp only [Text.isWhiteSpace, Bool.or_eq_false_iff, Bool.and_eq_false_iff,
    decide_eq_false_iff_not, beq_eq_false_iff_ne]
  omega

/-- Every alias is made of such characters, in lower case, and is an alias of one language only. -/
theorem aliases_apart {l : Language} {name : String} (h : name ∈ l.aliases) :
    name.toList ≠ [] ∧
    name.toList.all (fun c => ('a' ≤ c && c ≤ 'z') || c == '+') = true ∧
    all.find? (fun l => l.aliases.any fun a => a.toList == name.toList) = some l := by
  have hall : all.all (fun l => l.aliases.all fun name =>
      !name.toList.isEmpty && name.toList.all (fun c => ('a' ≤ c && c ≤ 'z') || c == '+') &&
        decide (all.find? (fun l => l.aliases.any fun a => a.toList == name.toList) = some l))
      = true := by
    decide +kernel
  have hmem : l ∈ all := by cases l <;> decide
  have hname := List.all_eq_true.mp (List.all_eq_true.mp hall l hmem) name h
  simp only [Bool.and_eq_true, Bool.not_eq_true', List.isEmpty_eq_false_iff, decide_eq_true_eq]
    at hname
  exact ⟨hname.1.1, hname.1.2, hname.2⟩

variable {l : Language} {name : String} {spelling : List Char}

/-- A spelling of an alias is made of the same characters, in either case. -/
theorem isNameChar_spelling (hname : name ∈ l.aliases) (h : lowerAscii spelling = name.toList) :
    spelling ≠ [] ∧ ∀ c ∈ spelling, IsNameChar c := by
  obtain ⟨hne, hchars, -⟩ := aliases_apart hname
  rw [← h] at hne hchars
  constructor
  · rintro rfl
    exact hne rfl
  · intro c hc
    exact isNameChar_of_toLower (List.all_eq_true.mp hchars c.toLower (List.mem_map_of_mem hc))

/-- **An alias names its language**, in any spelling and with any spaces around it. -/
theorem ofName?_spelling (hname : name ∈ l.aliases) (h : lowerAscii spelling = name.toList)
    (i j : Nat) :
    ofName? (.ofList (List.replicate i ' ' ++ spelling ++ List.replicate j ' ')) = some l := by
  obtain ⟨-, hchars⟩ := isNameChar_spelling hname h
  unfold ofName?
  rw [String.toList_ofList, Text.trim_spaces (fun c hc => (hchars c hc).isWhiteSpace_eq) i j, h]
  exact (aliases_apart hname).2.2

end Language

/-! ### Texts of settings -/

namespace Settings

open Toml

/-- A text of settings, and what is open in it: under which alias the language is named, how its
letters are written and how many spaces are around it; whether there is an encoding and under which
of its spellings; whether there is a limit, or at least a number in its place; and how many blank
lines there are before each line and line ends after the last one. -/
structure Written where
  language : Language
  name : String
  isAlias : name ∈ language.aliases
  spelling : List Char
  isSpelling : Language.lowerAscii spelling = name.toList
  before : Nat
  after : Nat
  encoding : Option (String × Encoding)
  isEncoding : ∀ named ∈ encoding,
    named ∈ [("utf-8", .utf8), ("utf8", .utf8), ("utf-16", .utf16), ("utf16", .utf16)]
  limit : Option Nat
  isWord : ∀ n ∈ limit, n ≤ 0x7FFFFFFFFFFFFFFF
  blank : Nat → Nat

namespace Written

variable (w : Written)

/-- The name of the language with the spaces around it. -/
def title : List Char :=
  List.replicate w.before ' ' ++ w.spelling ++ List.replicate w.after ' '

/-- A line with a text in double quotes. -/
def textLine (key : String) (text : List Char) : List Char :=
  assignmentLine key ('"' :: (text ++ ['"']))

def encodingLines : List (List Char) :=
  (w.encoding.map fun named => textLine "encoding" named.1.toList).toList

def queryLines : List (List Char) :=
  match w.limit with
  | none => []
  | some n => [headingLine "query", assignmentLine "match_limit" (Nat.toDigits 10 n)]

/-- The lines one below the other. -/
def text : String :=
  .ofList (List.replicate (w.blank 0) '\n' ++ (textLine "language" w.title ++
    linesBelow (fun i => w.blank (i + 1)) (w.encodingLines ++ w.queryLines)))

/-- The settings that are written, if the limit is one. -/
def settings : Settings where
  language := w.language
  encoding := (w.encoding.map (·.2)).getD .utf8
  matchLimit := w.limit

/-- The limit, if there is one, is a positive number of 32 bits. -/
def InRange : Prop := ∀ n ∈ w.limit, 1 ≤ n ∧ n ≤ 4294967295

/-! ### The document -/

/-- Where in the text the keys and the values are. -/
structure Spans where
  languageKey : Span
  language : Span
  encodingKey : Span
  encoding : Span
  queryKey : Span
  query : Span
  limitKey : Span
  limit : Span
  deriving Inhabited

def encodingEntries (spans : Spans) : Entries :=
  (w.encoding.map fun named =>
    (⟨"encoding", spans.encodingKey⟩, spans.encoding, .text named.1)).toList

def queryEntries (spans : Spans) : Entries :=
  (w.limit.map fun n => (⟨"query", spans.queryKey⟩, spans.query,
    .table .header [(⟨"match_limit", spans.limitKey⟩, spans.limit, .integer n)])).toList

/-- The document that the lines come to. -/
def document (spans : Spans) : Entries :=
  (⟨"language", spans.languageKey⟩, spans.language, .text (.ofList w.title)) ::
    (w.encodingEntries spans ++ w.queryEntries spans)

/-- The span of the limit is that of its digits, in a line of the text `s`. -/
def Locates (spans : Spans) (s : List Char) : Prop :=
  ∀ n ∈ w.limit, ∃ rest, spans.limit = .between (Nat.toDigits 10 n ++ rest) rest ∧
    assignmentLine "match_limit" (Nat.toDigits 10 n) ++ rest <:+ s

variable {w} in
theorem Locates.of_suffix {spans : Spans} {s t : List Char} (h : w.Locates spans s)
    (hst : s <:+ t) : w.Locates spans t := by
  intro n hn
  obtain ⟨rest, hspan, hrest⟩ := h n hn
  exact ⟨rest, hspan, hrest.trans hst⟩

theorem isUnescaped_title : IsUnescaped w.title := by
  have hspaces : ∀ k, IsUnescaped (List.replicate k ' ') := by
    intro k c hc
    rw [List.eq_of_mem_replicate hc]
    decide
  have hspelling : IsUnescaped w.spelling := by
    intro c hc
    have hchar := (Language.isNameChar_spelling w.isAlias w.isSpelling).2 c hc
    unfold Language.IsNameChar at hchar
    refine ⟨?_, ?_, ?_⟩
    · simp only [isPlain, Bool.or_eq_true, Bool.and_eq_true, decide_eq_true_eq, bne_iff_ne]
      omega
    · rintro rfl
      revert hchar
      decide
    · rintro rfl
      revert hchar
      decide
  intro c hc
  rw [title, List.mem_append, List.mem_append] at hc
  rcases hc with (hc | hc) | hc
  · exact hspaces w.before c hc
  · exact hspelling c hc
  · exact hspaces w.after c hc

theorem title_ne_nil : w.title ≠ [] := by
  have hne := (Language.isNameChar_spelling w.isAlias w.isSpelling).1
  simp [title, hne]

/-- The lines of the query settings, below others that are not about them. -/
theorem reads_queryLines (blank : Nat → Nat) {es : Entries} (hes : es.find? "query" = none) :
    ∃ spans, Reads ⟨es, []⟩ (linesBelow blank w.queryLines).tail (es ++ w.queryEntries spans) ∧
      w.Locates spans (linesBelow blank w.queryLines) := by
  unfold Locates queryLines queryEntries
  cases hlimit : w.limit with
  | none =>
    have hend := Reads.linesBelow_nil ⟨es, []⟩ blank
    exact ⟨default, by simpa using hend, by simp⟩
  | some n =>
    have hn : n ≤ 0x7FFFFFFFFFFFFFFF := w.isWord n hlimit
    have hends := endsLine_linesBelow (fun i => blank (i + 1 + 1)) []
    -- the heading opens a table, and the line below it puts the limit in there
    refine ⟨⟨default, default, default, default, _, _, _, _⟩,
      Reads.heading (by decide) (endsLine_linesBelow _ _)
        (Entries.openTable_of_find?_eq_none hes _)
        (Reads.assignment (by decide) (.integer hn) hends
          (Entries.changeAt_concat hes (Entries.assign_of_find?_eq_none rfl))
          (Reads.linesBelow_nil _ _) _) _, ?_⟩
    rintro n ⟨⟩
    have hlast := suffix_linesBelow (fun i => blank (i + 1))
      (assignmentLine "match_limit" (Nat.toDigits 10 n)) []
    exact ⟨_, rfl, (hlast.trans (List.suffix_append _ _)).trans (suffix_linesBelow blank _ _)⟩

theorem writes_spelling {named : String × Encoding} (h : named ∈ Encoding.spellings) :
    Writes ('"' :: (named.1.toList ++ ['"'])) (.text named.1) := by
  have hall : Encoding.spellings.all (fun named => !named.1.toList.isEmpty &&
      named.1.toList.all fun c => isPlain c && c != '"' && c != '\\') = true := by
    decide
  have hnamed := List.all_eq_true.mp hall named h
  simp only [Bool.and_eq_true, Bool.not_eq_true', List.isEmpty_eq_false_iff, List.all_eq_true,
    bne_iff_ne] at hnamed
  have hwrites := Writes.text (fun c hc => and_assoc.mp (hnamed.2 c hc)) hnamed.1
  rwa [String.ofList_toList] at hwrites

/-- The lines below the one of the language. -/
theorem reads_encodingLines (blank : Nat → Nat) {es : Entries}
    (hencoding : es.find? "encoding" = none) (hquery : es.find? "query" = none) :
    ∃ spans, Reads ⟨es, []⟩ (linesBelow blank (w.encodingLines ++ w.queryLines)).tail
        (es ++ (w.encodingEntries spans ++ w.queryEntries spans)) ∧
      w.Locates spans (linesBelow blank (w.encodingLines ++ w.queryLines)) := by
  unfold encodingLines encodingEntries
  cases hnamed : w.encoding with
  | none => simpa using w.reads_queryLines blank hquery
  | some named =>
    have hwrites := writes_spelling (w.isEncoding named hnamed)
    have hends := endsLine_linesBelow (fun i => blank (i + 1)) w.queryLines
    obtain ⟨key, span, hline⟩ := Reads.newKey (by decide) hwrites hends hencoding
    have hquery' : Entries.find? (es ++ [(⟨"encoding", key⟩, span, .text named.1)]) "query"
        = none := by
      rw [Entries.find?_concat hquery]
      rfl
    obtain ⟨spans, hreads, hlimit⟩ := w.reads_queryLines (fun i => blank (i + 1)) hquery'
    rw [List.append_assoc] at hreads
    refine ⟨{ spans with encodingKey := key, encoding := span }, hline _ hreads (blank 0), ?_⟩
    have hbelow := suffix_linesBelow blank (textLine "encoding" named.1.toList) w.queryLines
    exact hlimit.of_suffix ((List.suffix_append _ _).trans hbelow)

/-- **The document of the text.** -/
theorem exists_read? :
    ∃ spans, Toml.read? w.text.toList = some (w.document spans) ∧
      w.Locates spans w.text.toList := by
  have hwrites := Writes.text w.isUnescaped_title w.title_ne_nil
  have hends := endsLine_linesBelow (fun i => w.blank (i + 1)) (w.encodingLines ++ w.queryLines)
  have hkey : IsBare "language" := by decide
  have hnone : Entries.find? [] "language" = none := rfl
  obtain ⟨key, span, hline⟩ := Reads.newKey hkey hwrites hends hnone
  have hencoding : Entries.find? ([] ++ [(⟨"language", key⟩, span, .text (.ofList w.title))])
      "encoding" = none := rfl
  have hquery : Entries.find? ([] ++ [(⟨"language", key⟩, span, .text (.ofList w.title))])
      "query" = none := rfl
  obtain ⟨spans, hreads, hlimit⟩ :=
    w.reads_encodingLines (fun i => w.blank (i + 1)) hencoding hquery
  unfold text
  rw [String.toList_ofList]
  refine ⟨{ spans with languageKey := key, language := span },
    (hline _ hreads (w.blank 0)).read?_eq ?_, ?_⟩
  · -- the text starts with a line end, or with the key of the language
    cases w.blank 0 with
    | zero =>
      show some 'l' ≠ some '\uFEFF'
      decide
    | succ k =>
      show some '\n' ≠ some '\uFEFF'
      decide
  · exact hlimit.of_suffix ((List.suffix_append _ _).trans (List.suffix_append _ _))

/-! ### The settings -/

theorem readEntry_language (found : Found) (key span : Span) :
    readEntry found (⟨"language", key⟩, span, .text (.ofList w.title))
      = .ok { found with language := some w.language } := by
  have hname : Language.ofName? (.ofList w.title) = some w.language :=
    Language.ofName?_spelling w.isAlias w.isSpelling w.before w.after
  simp [readEntry, languageOf, hname, Except.map]

theorem readEntry_encoding {named : String × Encoding} (h : named ∈ Encoding.spellings)
    (found : Found) (key span : Span) :
    readEntry found (⟨"encoding", key⟩, span, .text named.1)
      = .ok { found with encoding := some named.2 } := by
  have hname : Encoding.ofSpelling? named.1 = some named.2 := ofSpelling?_eq_some_iff.2 h
  simp [readEntry, encodingOf, encodingNamed, hname, Except.map]

/-- What is read of the language and the encoding does not depend on how they are written. -/
theorem foldlM_document (spans : Spans) :
    (w.document spans).foldlM readEntry ⟨none, none, none⟩
      = (w.queryEntries spans).foldlM readEntry
          ⟨some w.language, w.encoding.map (·.2), none⟩ := by
  rw [document, List.foldlM_cons, readEntry_language]
  show (w.encodingEntries spans ++ w.queryEntries spans).foldlM readEntry
    ⟨some w.language, none, none⟩ = _
  rw [List.foldlM_append]
  unfold encodingEntries
  cases hnamed : w.encoding with
  | none => rfl
  | some named =>
    rw [Option.map_some, Option.toList_some, List.foldlM_cons,
      readEntry_encoding (w.isEncoding named hnamed)]
    rfl

/-- So the limit alone decides what is read. -/
theorem read_document_of_limit {n : Nat} (hlimit : w.limit = some n) (spans : Spans) :
    read (w.document spans) = (limitOf (spans.limit, .integer n)).map fun limit =>
      ⟨w.language, (w.encoding.map (·.2)).getD .utf8, some limit⟩ := by
  unfold read
  rw [foldlM_document]
  unfold queryEntries
  rw [hlimit, Option.map_some, Option.toList_some, List.foldlM_cons]
  simp only [readEntry, queryOf, limitIn]
  cases limitOf (spans.limit, .integer n) with
  | error complaint => rfl
  | ok limit => rfl

theorem read_document_of_inRange (h : w.InRange) (spans : Spans) :
    read (w.document spans) = .ok w.settings := by
  unfold settings
  cases hlimit : w.limit with
  | none =>
    unfold read
    rw [foldlM_document]
    unfold queryEntries
    rw [hlimit]
    rfl
  | some n =>
    have hn := h n hlimit
    have hlimitOf : limitOf (spans.limit, .integer n) = .ok n := if_pos (by omega)
    rw [read_document_of_limit w hlimit, hlimitOf]
    rfl

theorem read_document_of_not_inRange {n : Nat} (hlimit : w.limit = some n)
    (h : n = 0 ∨ 4294967295 < n) (spans : Spans) :
    read (w.document spans) = .error ⟨spans.limit, .limitOutOfRange n⟩ := by
  have hlimitOf : limitOf (spans.limit, .integer n)
      = .error ⟨spans.limit, .limitOutOfRange n⟩ := if_neg (by omega)
  rw [read_document_of_limit w hlimit, hlimitOf]
  rfl

end Written

/-! ### Texts and files -/

/-- Where a text comes from shows in the errors only. -/
theorem loadText_eq {text : String} {document : Entries}
    (h : Toml.read? text.toList = some document) (path : Option String) :
    loadText path text = (read document).mapError fun c =>
      .invalid path (c.report text.toList) := by
  unfold loadText
  simp only [h]
  cases read document with
  | error c => rfl
  | ok settings => rfl

theorem loadFile_eq {files : FileSystem} {path text : String}
    (h : files.read path = .ok (Text.Utf8.encode text.toList)) :
    loadFile files path = loadText (some path) text := by
  have hread : files.readText path = .ok text := by
    simp only [FileSystem.readText, h, Text.Utf8.decode?_encode, bind, Except.bind]
    exact congrArg Except.ok text.ofList_toList
  rw [loadFile, hread]

theorem LoadError.message_text (report : String) :
    (invalid none report).message = "invalid config: " ++ report := by
  have htext : "invalid config: " = "invalid config" ++ "" ++ ": " := by decide
  rw [htext]
  rfl

theorem LoadError.message_file (path report : String) :
    (invalid (some path) report).message = "invalid config (" ++ path ++ "): " ++ report := by
  have hopen : "invalid config (" = "invalid config" ++ " (" := by decide
  have hclose : "): " = ")" ++ ": " := by decide
  have hmessage : (invalid (some path) report).message
      = "invalid config" ++ (" (" ++ path ++ ")") ++ ": " ++ report := rfl
  rw [hmessage, hopen, hclose]
  simp only [String.append_assoc]

/-- **Settings that are written down are read back**, if the limit is one.  If it is not, an error is
reported that points at the number.  A file with the text gives the same settings, or the same error
with the path of the file in it. -/
theorem load_text (w : Written) :
    (w.InRange → load w.text = .ok w.settings) ∧
    (∀ n ∈ w.limit, n = 0 ∨ 4294967295 < n → ∃ before after,
      w.text.toList = before ++ "match_limit = ".toList ++ Nat.toDigits 10 n ++ after ∧
      load w.text = .error (.invalid none (Toml.report w.text.toList
        (Text.Utf8.size (before ++ "match_limit = ".toList))
        (Text.Utf8.size (before ++ "match_limit = ".toList ++ Nat.toDigits 10 n))
        (Problem.limitOutOfRange n).message))) ∧
    ∀ (files : FileSystem) (path : String),
      files.read path = .ok (Text.Utf8.encode w.text.toList) →
        (∀ settings, load w.text = .ok settings → loadFile files path = .ok settings) ∧
        ∀ error, load w.text = .error error → ∃ report,
          error = .invalid none report ∧ error.message = "invalid config: " ++ report ∧
          loadFile files path = .error (.invalid (some path) report) ∧
          (LoadError.invalid (some path) report).message
            = "invalid config (" ++ path ++ "): " ++ report := by
  obtain ⟨spans, hread, hlocates⟩ := w.exists_read?
  have hload := loadText_eq hread
  refine ⟨fun hrange => ?_, fun n hlimit hn => ?_, fun files path hfile => ?_⟩
  · rw [load, hload, w.read_document_of_inRange hrange]
    rfl
  · obtain ⟨rest, hspan, before, htext⟩ := hlocates n hlimit
    have hshape : w.text.toList
        = before ++ "match_limit = ".toList ++ Nat.toDigits 10 n ++ rest := by
      rw [← htext]
      simp [assignmentLine]
    refine ⟨before, rest, hshape, ?_⟩
    rw [load, hload, w.read_document_of_not_inRange hlimit hn]
    show Except.error (LoadError.invalid none (spans.limit.report w.text.toList _)) = _
    rw [hspan, hshape, Span.report_between]
  · rw [loadFile_eq hfile, load, hload, hload]
    cases read (w.document spans) with
    | ok settings =>
      constructor
      · exact fun _ hsettings => hsettings
      · rintro error ⟨⟩
    | error c =>
      constructor
      · rintro settings ⟨⟩
      · rintro error ⟨⟩
        exact ⟨_, rfl, LoadError.message_text _, rfl, LoadError.message_file path _⟩

/-- The last number that is a limit, under a name with capitals and spaces around it; and the first
one that is none, in a file. -/
theorem load_text_bounds :
    load "language = \" C++  \"\nencoding = \"utf-16\"\n[query]\nmatch_limit = 4294967295\n"
      = .ok ⟨.cpp, .utf16, some 4294967295⟩ ∧
    (∃ before after, "language = \"c++\"\n\n[query]\nmatch_limit = 4294967296".toList
        = before ++ "match_limit = ".toList ++ Nat.toDigits 10 4294967296 ++ after ∧
      load "language = \"c++\"\n\n[query]\nmatch_limit = 4294967296" = .error (.invalid none
        (Toml.report "language = \"c++\"\n\n[query]\nmatch_limit = 4294967296".toList
          (Text.Utf8.size (before ++ "match_limit = ".toList))
          (Text.Utf8.size (before ++ "match_limit = ".toList ++ Nat.toDigits 10 4294967296))
          (Problem.limitOutOfRange 4294967296).message))) ∧
    loadFile (FileStore.ofEntries [] [("conf/cpp.toml", Text.Utf8.encode
        "language = \"c++\"\n\n[query]\nmatch_limit = 4294967296".toList)]).system "conf/cpp.toml"
      = .error (.invalid (some "conf/cpp.toml")
        ("TOML parse error at line 4, column 15\n  |\n4 | match_limit = 4294967296\n" ++
          "  |               ^^^^^^^^^^\n" ++
          "invalid value: integer `4294967296`, expected a nonzero u32\n")) := by
  obtain ⟨hlast, -, -⟩ := load_text ⟨.cpp, "c++", by decide, "C++".toList, by decide, 1, 2,
    some ("utf-16", .utf16), by decide, some 4294967295, by decide, fun i => if i = 4 then 1 else 0⟩
  obtain ⟨-, hfirst, hfile⟩ := load_text ⟨.cpp, "c++", by decide, "c++".toList, by decide, 0, 0,
    none, by decide, some 4294967296, by decide, fun i => if i = 1 then 1 else 0⟩
  have hload : load "language = \"c++\"\n\n[query]\nmatch_limit = 4294967296"
    = .error (.invalid none
      ("TOML parse error at line 4, column 15\n  |\n4 | match_limit = 4294967296\n" ++
        "  |               ^^^^^^^^^^\n" ++
        "invalid value: integer `4294967296`, expected a nonzero u32\n")) := by
    decide +kernel
  obtain ⟨report, hreport, -, herror, -⟩ := (hfile (FileStore.ofEntries [] [("conf/cpp.toml",
    Text.Utf8.encode "language = \"c++\"\n\n[query]\nmatch_limit = 4294967296".toList)]).system
    "conf/cpp.toml" rfl).2 _ hload
  obtain ⟨-, rfl⟩ := LoadError.invalid.inj hreport
  refine ⟨hlast ?_, hfirst 4294967296 rfl (by decide), herror⟩
  rintro n ⟨⟩
  decide

end Settings

end SyntaxView
