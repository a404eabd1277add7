/-!
# White space

The Unicode `White_Space` property and the two ways of trimming by it.  All texts that are trimmed
here (names of languages, texts of queries) are trimmed by this property and not by the smaller
ASCII class, so `Char.isWhitespace` of core is never used in its place.
-/

namespace SyntaxView.Text

/-- The `White_Space` property of Unicode: twenty-five code points in ten runs. -/
def isWhiteSpace (c : Char) : Bool :=
  let n := c.toNat
  (0x09 ≤ n && n ≤ 0x0D) || n == 0x20 || n == 0x85 || n == 0xA0 || n == 0x1680
    || (0x2000 ≤ n && n ≤ 0x200A) || n == 0x2028 || n == 0x2029 || n == 0x202F || n == 0x205F
    || n == 0x3000

/-- The text without the white space at its front. -/
def trimStart (s : List Char) : List Char := s.dropWhile isWhiteSpace

/-- The text without the white space at its end. -/
def trimEnd (s : List Char) : List Char := (s.reverse.dropWhile isWhiteSpace).reverse

/-- The text without the white space at its two ends. -/
def trim (s : List Char) : List Char := trimEnd (trimStart s)

end SyntaxView.Text
