import SyntaxView.Language
import SyntaxView.Position.Encoding
import SyntaxView.Decimal.Binary64
import SyntaxView.Text.Quoted

/-!
# Languages and encodings as data

Languages and encodings as values of a data format with texts, numbers, lists and maps.  A language
is a text.  An encoding is a text too, or a map with the spelling as its only key and nothing under
it.
-/

namespace SyntaxView

/-- A value of a data format. -/
inductive Datum where
  | null
  | boolean (value : Bool)
  | integer (value : Int)
  | float (value : Binary64)
  | text (value : String)
  | list (items : List Datum)
  | map (entries : List (String × Datum))
  deriving Repr

/-- Why a value does not stand for what it should. -/
inductive DatumError where
  | unknownLanguage (name : String)
  | unknownEncoding (name : String)
  | wrongType (found : Datum) (expected : String)
  | notOneKey
  deriving Repr

namespace Datum

/-- Floats with a first digit of up to five places after the point or sixteen before it are shown in
full, all others with an exponent. -/
def floatStyle : DecimalStyle := ⟨.even, fun power => -5 ≤ power && power ≤ 15⟩

/-- The value as it is called in an error. -/
def describe : Datum → String
  | null => "null"
  | boolean value => s!"boolean `{value}`"
  | integer value => s!"integer `{value}`"
  | float value => s!"floating point `{value.render floatStyle}`"
  | text value => "string " ++ Text.quoted value
  | list _ => "sequence"
  | map _ => "map"

end Datum

namespace DatumError

def message : DatumError → String
  | unknownLanguage name => s!"unknown language: {name}"
  | unknownEncoding name =>
    s!"unknown variant `{name}`, expected one of `utf-8`, `utf8`, `utf-16`, `utf16`"
  | wrongType found expected => s!"invalid type: {found.describe}, expected {expected}"
  | notOneKey => "invalid value: map, expected map with a single key"

end DatumError

namespace Datum

/-- The language a value stands for. -/
def toLanguage : Datum → Except DatumError Language
  | text name =>
    match Language.ofName? name with
    | some l => .ok l
    | none => .error (.unknownLanguage name)
  | d => .error (.wrongType d "a string")

/-- The encoding of that spelling. -/
def encodingNamed (name : String) : Except DatumError Encoding :=
  match Encoding.ofSpelling? name with
  | some e => .ok e
  | none => .error (.unknownEncoding name)

/-- The encoding a value stands for. -/
def toEncoding : Datum → Except DatumError Encoding
  | text name => encodingNamed name
  | map [(name, under)] => do
    let e ← encodingNamed name
    match under with
    | null => .ok e
    | d => .error (.wrongType d "unit")
  | map _ => .error .notOneKey
  | d => .error (.wrongType d "string or map")

end Datum

end SyntaxView
