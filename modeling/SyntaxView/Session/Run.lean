import SyntaxView.Session.Parsers
import SyntaxView.Session.Trees
import SyntaxView.Session.Nodes
import SyntaxView.Session.Cursors
import SyntaxView.Session.Queries

/-!
# Running commands

A command of any kind, and lists of them.  One command has commands in it: it borrows a parser from
the pool, lets a name stand for it while they run, and puts the parser back as they left it.  The
parser goes back even if they have given up its name or used it for something else.  If no parser
is to be had, none of them is run.
-/

namespace SyntaxView

inductive Command where
  | parser (command : ParserCommand)
  | tree (command : TreeCommand)
  | node (command : NodeCommand)
  | cursor (command : CursorCommand)
  | query (command : QueryCommand)
  | withParser (language : String) (encoding : Encoding) (h : Handle) (body : List Command)
  deriving Repr

namespace Session

/-- The session with a parser for a key under a name and out of the pool. -/
def borrowParser (s : Session) (key : Language × Encoding) (h : Handle) : Except Fault Session :=
  let (serial, s) := s.freshSerial
  match s.pool.take s.check serial key with
  | .error fault => .error fault
  | .ok (parser, pool) =>
    .ok { s with pool := pool, lent := parser :: s.lent, parsers := s.parsers.bind h parser }

/-- The session with the parser that was taken last back in the pool, under the key it was taken
for, and with what its name stood for before. -/
def returnParser (s : Session) (key : Language × Encoding) (h : Handle) (before : Option Parser) :
    Session :=
  match s.lent with
  | [] => { s with parsers := s.parsers.set h before }
  | parser :: others =>
    { s with pool := s.pool.put key parser, lent := others, parsers := s.parsers.set h before }

mutual

/-- One command. -/
def step (compiler : QueryCompiler) : Command → Session → Outcome
  | .parser c, s => s.performParser c
  | .tree c, s => s.performTree c
  | .node c, s => s.performNode c
  | .cursor c, s => s.performCursor c
  | .query c, s => s.performQuery compiler c
  | .withParser language encoding h body, s =>
    match Language.ofName language with
    | .error fault => s.refuse (.fault fault)
    | .ok l =>
      let key := (l, encoding)
      match s.borrowParser key h with
      | .error fault => s.refuse (.fault fault)
      | .ok lending =>
        let (answers, after) := run compiler body lending
        (.answers answers, after.returnParser key h (s.parsers.get? h))

/-- A list of commands, each on the session that the one before it left. -/
def run (compiler : QueryCompiler) : List Command → Session → List Answer × Session
  | [], s => ([], s)
  | c :: cs, s =>
    let (answer, s) := step compiler c s
    let (answers, s) := run compiler cs s
    (answer :: answers, s)

end

end Session

end SyntaxView
