import SyntaxView.Session.Basic

/-!
# Commands on queries

Commands that compile queries, through the cache or not, and run them.  The engine's compiler is a
function of the language and the text; what it finds in a run is given by the native range of the
run, so a command carries a list of ranges with their runs.
-/

namespace SyntaxView

inductive QueryCommand where
  | new (h : Handle) (language : String) (source : String)
  | cached (h : Handle) (language : String) (source : String)
  | fillCache (language : String) (template : String) (first count : Nat)
  | cacheSize
  | clearCache
  | same (a b : Handle)
  | info (query : Handle) (table : List PatternEntry)
  | disablePattern (query : Handle) (index : Nat)
  | disableCapture (query : Handle) (name : String)
  | findAll (query node : Handle) (capture : Option String) (reply : QueryRun)
  | open (query node : Handle) (h : Handle)
  | setByteRange (cursor : Handle) (start stop : Nat)
  | setMatchLimit (cursor : Handle) (limit : Nat)
  | applySettings (cursor : Handle) (settings : String)
  | execute (cursor : Handle) (count : Nat) (capture : Option String)
      (replies : List (Option (Nat × Nat) × QueryRun))
  | didExceed (cursor : Handle)
  deriving Repr

namespace Session

variable (compiler : QueryCompiler) (s : Session)

/-- The query of a text through the cache. -/
def getOrCompile (language : Language) (source : String) : Except Fault Query × Session :=
  let (serial, s) := s.freshSerial
  let (result, cache) := s.cache.getOrCompile (Query.compile compiler serial) language source
  (result, { s with cache := cache })

/-- The text of a template with a number in the place of its mark. -/
def fillTemplate (template : String) (n : Nat) : String := template.replace "\x7bn\x7d" (toString n)

/-- The queries of a template for `count` numbers, all put through the cache. -/
def fillCache (language : Language) (template : String) :
    (first count : Nat) → Session → Except Fault Unit × Session
  | _, 0, s => (.ok (), s)
  | first, count + 1, s =>
    match s.getOrCompile compiler language (fillTemplate template first) with
    | (.error fault, s) => (.error fault, s)
    | (.ok _, s) => fillCache language template (first + 1) count s

/-- A change to a query, which has to be one that is not shared.  Its cursors are forgotten whether
or not the change is then made. -/
def changeQuery (h : Handle) (check : Query → Except Fault Unit) : Outcome :=
  s.withBound s.queries h fun q =>
    let s := s.forgetQuery h
    if q.shared then s.refuse (.shared h)
    else s.withResult (check q.query) fun _ => (.done, s)

/-- A change to a query cursor. -/
def changeQueryCursor (h : Handle) (change : QueryCursor → Except Fault QueryCursor) : Outcome :=
  s.withBound s.queryCursors h fun c =>
    s.withResult (change c.cursor) fun cursor =>
      (.done, { s with queryCursors := s.queryCursors.bind h { c with cursor := cursor } })

def performQuery : QueryCommand → Outcome
  | .new h language source =>
    s.withResult (Language.ofName language) fun l =>
      let (serial, s) := s.freshSerial
      s.withResult (Query.compile compiler serial l source) fun q =>
        (.newQuery q, s.bindQuery h ⟨q, false⟩)
  | .cached h language source =>
    s.withResult (Language.ofName language) fun l =>
      let (result, s) := s.getOrCompile compiler l source
      s.withResult result fun q => (.newQuery q, s.bindQuery h ⟨q, true⟩)
  | .fillCache language template first count =>
    s.withResult (Language.ofName language) fun l =>
      let (result, s) := fillCache compiler l template first count s
      s.withResult result fun _ => (.number s.cache.size, s)
  | .cacheSize => (.number s.cache.size, s)
  | .clearCache => (.done, { s with cache := .empty })
  | .same a b =>
    s.withBound s.queries a fun p =>
      s.withBound s.queries b fun q => (.flag (p.query.serial == q.query.serial), s)
  | .info h table =>
    s.withBound s.queries h fun q => (.query q.query (q.query.patternsAt table), s)
  | .disablePattern h index => s.changeQuery h fun q => q.checkPattern index
  | .disableCapture h name => s.changeQuery h fun q => q.checkCapture name
  | .findAll query node capture reply =>
    s.withBound s.queries query fun q =>
      s.withBound s.nodes node fun n =>
        s.withResult (q.query.findAll n fun _ _ => reply) fun found => (.found found capture, s)
  | .open query node h =>
    s.withBound s.queries query fun q =>
      s.withBound s.nodes node fun n =>
        s.withResult (QueryCursor.start q.query n) fun c =>
          (.queryCursor c, { s with queryCursors := s.queryCursors.bind h ⟨c, query⟩ })
  | .setByteRange h start stop => s.changeQueryCursor h fun c => c.setByteRange start stop
  | .setMatchLimit h limit => s.changeQueryCursor h fun c => .ok (c.setMatchLimit limit)
  | .applySettings h text =>
    s.withBound s.queryCursors h fun _ =>
      s.withSettings text fun settings =>
        s.changeQueryCursor h fun c =>
          .ok (match settings.matchLimit with
            | some limit => c.setMatchLimit limit
            | none => c)
  | .execute h count capture replies =>
    s.withBound s.queryCursors h fun c =>
      let engine (range : Option (Nat × Nat)) (_ : Option Nat) : QueryRun :=
        (replies.lookup range).getD ⟨[], false⟩
      let (found, cursor) := c.cursor.execute engine
      let shown := (List.range count).map fun k => found[k]?
      (.executed shown capture cursor.exceeded,
        { s with queryCursors := s.queryCursors.bind h { c with cursor := cursor } })
  | .didExceed h => s.withBound s.queryCursors h fun c => (.flag c.cursor.exceeded, s)

end Session

end SyntaxView
