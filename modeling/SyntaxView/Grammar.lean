/-!
# Grammars

The symbols and fields of a language's grammar, from what the engine says about each number.
-/

namespace SyntaxView

/-- What a symbol is for. -/
inductive SymbolKind where
  /-- A named node. -/
  | regular
  /-- A node that is a piece of text, such as an operator. -/
  | anonymous
  /-- A symbol that no tree shows. -/
  | auxiliary
  deriving Repr, DecidableEq

/-- What the engine says of a symbol. -/
structure SymbolEntry where
  name : String
  isVisible : Bool
  isNamed : Bool
  deriving Repr, DecidableEq

/-- A symbol of a grammar. -/
structure GrammarSymbol where
  id : Nat
  kind : SymbolKind
  name : String
  deriving Repr, DecidableEq

namespace GrammarSymbol

/-- The symbol of a number; some numbers have none. -/
def ofDescription? (id : Nat) (entry : Option SymbolEntry) : Option GrammarSymbol :=
  entry.map fun e =>
    let kind : SymbolKind :=
      if e.isVisible then if e.isNamed then .regular else .anonymous else .auxiliary
    ⟨id, kind, e.name⟩

/-- The symbols of a list of entries, those without a name left out. -/
def ofEntries (entries : List (Nat × Option SymbolEntry)) : List GrammarSymbol :=
  entries.filterMap fun (id, entry) => ofDescription? id entry

/-- The symbols of a grammar, whose entries are numbered from zero. -/
def all (entries : List (Option SymbolEntry)) : List GrammarSymbol :=
  ofEntries (entries.zipIdx.map fun (entry, id) => (id, entry))

end GrammarSymbol

/-- The names of the fields of a grammar, numbers without a name left out. -/
def fieldNames (entries : List (Option String)) : List String := entries.filterMap id

end SyntaxView
