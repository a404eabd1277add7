import SyntaxView.Toml.Document

/-!
# Reports

How a problem in a TOML text is shown: the line it is in, and under it carets for the part that is
meant.
-/

namespace SyntaxView.Toml

/-- The report of a problem in a text, from the byte `start` to the byte `stop`.

Lines and columns are counted from one and columns in characters, but the carets go by bytes, as
many as the part has, up to the end of the line and at least one. -/
def report (text : List Char) (start stop : Nat) (message : String) : String :=
  let before := Text.Utf8.decodeLossy ((Text.Utf8.encode text).take start)
  let row := before.count '\n'
  let column := (before.reverse.takeWhile (· != '\n')).length
  let line := ((text.splitOn '\n')[row]?).getD []
  let carets := max 1 (min (stop - start) (Text.Utf8.size line - column))
  let number := toString (row + 1)
  let gutter : String := .ofList (List.replicate (number.length + 1) ' ')
  let pad : String := .ofList (List.replicate (column + 1) ' ')
  s!"TOML parse error at line {number}, column {column + 1}\n" ++
    gutter ++ "|\n" ++
    number ++ " | " ++ .ofList line ++ "\n" ++
    gutter ++ "|" ++ pad ++ .ofList (List.replicate carets '^') ++ "\n" ++
    message ++ "\n"

/-- The report of a problem in a span of a text. -/
def Span.report (span : Span) (text : List Char) (message : String) : String :=
  let size := Text.Utf8.size text
  Toml.report text (size - span.leftAtStart) (size - span.leftAtEnd) message

end SyntaxView.Toml
