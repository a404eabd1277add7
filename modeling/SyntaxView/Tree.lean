import SyntaxView.Source
import SyntaxView.Language
import SyntaxView.Syntax.Location

/-!
# Trees

A tree is what a parse leaves behind: the engine's syntax tree, the text it was made from and the
language.  The text decides the encoding and with it the unit in which callers count, and a tree
keeps its encoding for life.
-/

namespace SyntaxView

/-- A parsed text. -/
structure Tree where
  /-- The number that tells a tree from every other one. -/
  id : Nat
  shape : Syntax
  source : Source
  language : Language
  deriving Repr

namespace Tree

def encoding (t : Tree) : Encoding := t.source.encoding

/-- The location of the node that comes `index`-th in pre-order. -/
def locate? (t : Tree) (index : Nat) : Option Location := (Location.root t.shape).preorder[index]?

/-- The tree after an edit, which the engine applies to its syntax tree in native units.  The new
text takes the place of the old one and keeps its encoding. -/
def edit (t : Tree) (edit : Edit) (newText : String) (engine : Edit → Syntax) : Tree :=
  { t with
    shape := engine (t.encoding.editToNative edit)
    source := .encode newText t.encoding }

/-- The ranges in which the engine found two trees to differ, in the unit of this tree. -/
def changedRanges (t : Tree) (native : List Range) : List Range :=
  native.map t.encoding.rangeFromNative

def describe (t : Tree) : String :=
  s!"Tree(id: {t.id}, language: {t.language.name}, encoding: {t.encoding.name})"

@[simp]
theorem encoding_edit (t : Tree) (edit : Edit) (newText : String) (engine : Edit → Syntax) :
    (t.edit edit newText engine).encoding = t.encoding := by
  simp [Tree.edit, encoding]

end Tree

end SyntaxView
