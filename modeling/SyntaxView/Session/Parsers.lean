import SyntaxView.Session.Basic

/-!
# Commands on parsers

Commands that make, set up and use parsers.  Those that parse carry what the engine answers.
-/

namespace SyntaxView

inductive ParserCommand where
  | new (h : Handle)
  | newFor (h : Handle) (language : String)
  | newFrom (h : Handle) (settings : String)
  | setLanguage (parser : Handle) (language : String)
  | setEncoding (parser : Handle) (encoding : Encoding)
  | info (parser : Handle)
  | reset (parser : Handle)
  | delete (parser : Handle)
  | parse (parser : Handle) (text : String) (h : Handle) (reply : Option Syntax)
  | parseFile (parser : Handle) (path : String) (h : Handle) (reply : Option Syntax)
  | reparse (parser tree : Handle) (h : Handle) (reply : Option Syntax)
  | pooled
  deriving Repr

namespace Session

variable (s : Session)

/-- The session with a new tree under a name, and the tree as the answer. -/
def addTree (h : Handle) (result : Except Fault Tree) : Outcome :=
  s.withResult result fun t =>
    (.newTree t, { s with treeCount := s.treeCount + 1 }.bindTree h t)

def performParser : ParserCommand → Outcome
  | .new h =>
    let (serial, s) := s.freshSerial
    (.done, s.bindParser h (.new serial))
  | .newFor h language =>
    s.withResult (Language.ofName language) fun l =>
      let (serial, after) := s.freshSerial
      s.withResult (Parser.ofLanguage s.check serial l) fun p => (.done, after.bindParser h p)
  | .newFrom h text =>
    s.withSettings text fun settings =>
      let (serial, after) := s.freshSerial
      s.withResult (Parser.ofLanguage s.check serial settings.language) fun p =>
        (.settings settings, after.bindParser h (p.setEncoding settings.encoding))
  | .setLanguage h language =>
    s.withBound s.parsers h fun p =>
      s.withResult (Language.ofName language) fun l =>
        s.withResult (p.setLanguage s.check l) fun p => (.done, s.bindParser h p)
  | .setEncoding h encoding =>
    s.withBound s.parsers h fun p => (.done, s.bindParser h (p.setEncoding encoding))
  | .info h => s.withBound s.parsers h fun p => (.parser p, s)
  | .reset h => s.withBound s.parsers h fun _ => (.done, s)
  | .delete h =>
    s.withBound s.parsers h fun _ => (.done, { s with parsers := s.parsers.unbind h })
  | .parse parser text h reply =>
    s.withBound s.parsers parser fun p =>
      s.addTree h (p.parse (fun _ _ _ => reply) (s.treeCount + 1) text)
  | .parseFile parser path h reply =>
    s.withBound s.parsers parser fun p =>
      let (result, p) := p.parseFile (fun _ _ _ => reply) s.check s.files (s.treeCount + 1) path
      (s.bindParser parser p).addTree h result
  | .reparse parser tree h reply =>
    s.withBound s.parsers parser fun p =>
      s.withBound s.trees tree fun t =>
        s.addTree h (p.reparse (fun _ _ _ => reply) (s.treeCount + 1) t)
  | .pooled => (.number s.pool.size, s)

end Session

end SyntaxView
