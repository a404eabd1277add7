import SyntaxView.Fault
import SyntaxView.Tree

/-!
# Parsers

A parser has a language, once it has been given one, and an encoding.  It parses a text, a file, or
the text of a tree that has been edited.  The engine does the parsing, and it may refuse a language;
what is decided here is what it is given and what becomes of its refusals.
-/

namespace SyntaxView

/-- The engine's parser: the syntax tree of a text in a language, made anew or from an old tree
that has been edited; nothing if the engine gives up. -/
abbrev ParseEngine := Language → Source → Option Syntax → Option Syntax

/-- The engine's verdict on a language: nothing if a parser may have it, and the engine's remark if
the engine refuses it. -/
abbrev LanguageCheck := Language → Option String

/-- A parser, ready to use once it has a language. -/
structure Parser where
  /-- The number that tells a parser from every other one. -/
  serial : Nat
  language : Option Language
  encoding : Encoding
  deriving Repr, DecidableEq

namespace Parser

/-- A parser without a language. -/
def new (serial : Nat) : Parser := ⟨serial, none, .utf8⟩

variable (p : Parser)

/-- The parser with another language, unless the engine refuses it. -/
def setLanguage (check : LanguageCheck) (language : Language) : Except Fault Parser :=
  match check language with
  | some remark => .error (.languageRefused language.name remark)
  | none => .ok { p with language := some language }

theorem setLanguage_of_accepted {check : LanguageCheck} {language : Language}
    (h : check language = none) :
    p.setLanguage check language = .ok { p with language := some language } := by
  rw [setLanguage, h]

theorem setLanguage_of_refused {check : LanguageCheck} {language : Language} {remark : String}
    (h : check language = some remark) :
    p.setLanguage check language = .error (.languageRefused language.name remark) := by
  rw [setLanguage, h]

def setEncoding (encoding : Encoding) : Parser := { p with encoding := encoding }

/-- A new parser with a language, unless the engine refuses it. -/
def ofLanguage (check : LanguageCheck) (serial : Nat) (language : Language) : Except Fault Parser :=
  (new serial).setLanguage check language

/-- The tree of a text in its encoding, under the number `id`. -/
def parseSource (engine : ParseEngine) (id : Nat) (source : Source) (old : Option Syntax) :
    Except Fault Tree :=
  match p.language with
  | none => .error (.badState .noLanguage)
  | some language =>
    match engine language source old with
    | none => .error .parseFailed
    | some shape => .ok ⟨id, shape, source, language⟩

/-- The tree of a text. -/
def parse (engine : ParseEngine) (id : Nat) (text : String) : Except Fault Tree :=
  p.parseSource engine id (.encode text p.encoding) none

/-- The tree of the text that another tree has come to after edits.  The two must agree on the
encoding. -/
def reparse (engine : ParseEngine) (id : Nat) (old : Tree) : Except Fault Tree :=
  if old.encoding ≠ p.encoding then
    .error (.badArgument (.otherEncoding old.encoding p.encoding))
  else p.parseSource engine id old.source (some old.shape)

/-- The parser with which a file is parsed: one without a language takes the one that the name of
the file points to, if any. -/
def forFile (check : LanguageCheck) (files : FileSystem) (path : String) : Except Fault Parser :=
  match p.language with
  | some _ => .ok p
  | none =>
    match Language.ofPath files path with
    | .error fault => .error fault
    | .ok none => .ok p
    | .ok (some language) => p.setLanguage check language

/-- The tree of a file, and the parser afterwards.  A language taken from the name of the file
stays with the parser even if the file then cannot be read. -/
def parseFile (engine : ParseEngine) (check : LanguageCheck) (files : FileSystem) (id : Nat)
    (path : String) : Except Fault Tree × Parser :=
  match p.forFile check files path with
  | .error fault => (.error fault, p)
  | .ok p =>
    match files.readText path with
    | .error error => (.error (.unreadable path error.message), p)
    | .ok text => (p.parse engine id text, p)

def describe : String :=
  let language := match p.language with
    | none => "None"
    | some language => s!"Some({language.describe})"
  s!"Parser \x7b language: {language}, encoding: {p.encoding.name} \x7d"

end Parser

end SyntaxView
