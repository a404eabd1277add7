import SyntaxView.Text.WhiteSpace
import SyntaxView.Text.Quoted

/-!
# Predicates

The predicates of a query pattern, as they stand in its text: `(#name @capture "text" word)`.  The
engine keeps them in a form of its own; here they are read back from the text.

The reader knows nothing of the rest of the query language.  It goes through the text and passes
over string literals and comments, so that nothing inside them is taken for a predicate, and it
reads a predicate wherever a parenthesis, white space apart, is followed by `#`.  Nothing in a
text can make it fail: what is not closed ends with the text.
-/

namespace SyntaxView

/-- An argument of a predicate: the name of a capture, or a text. -/
inductive Argument where
  | capture (name : String)
  | text (value : String)
  deriving Repr, DecidableEq

/-- A condition or remark on the matches of a pattern. -/
structure Predicate where
  name : String
  arguments : List Argument
  deriving Repr, DecidableEq

/-! ### Writing -/

namespace Argument

def render : Argument → String
  | capture name => "@" ++ name
  | text value => Text.quoted value

end Argument

namespace Predicate

def render (p : Predicate) : String :=
  "(#" ++ p.name ++ .join (p.arguments.map fun a => " " ++ a.render) ++ ")"

end Predicate

/-! ### Reading -/

namespace PredicateText

/-- The characters of a word: all but white space and parentheses. -/
def isWordChar (c : Char) : Bool := !Text.isWhiteSpace c && c != '(' && c != ')'

/-- The word at the front of a text, possibly empty, and the rest. -/
def readWord (s : List Char) : List Char × List Char :=
  (s.takeWhile isWordChar, s.dropWhile isWordChar)

/-- What a character stands for after a backslash. -/
def unescape (c : Char) : Char :=
  if c = 'n' then '\n' else if c = 't' then '\t' else if c = 'r' then '\r'
  else if c = '0' then '\x00' else c

/-- A string literal after its opening quote: what it stands for, and the rest after its closing
quote. -/
def readLiteral : List Char → List Char × List Char
  | [] => ([], [])
  | c :: rest =>
    if c = '"' then ([], rest)
    else if c = '\\' then
      match rest with
      | [] => ([], [])
      | e :: rest =>
        let more := readLiteral rest
        (unescape e :: more.1, more.2)
    else
      let more := readLiteral rest
      (c :: more.1, more.2)

/-- What comes after a comment, which ends with its line. -/
def skipComment (s : List Char) : List Char := (s.dropWhile (· != '\n')).tail

/-! ### The rest is never longer -/

theorem length_dropWhile_le (p : Char → Bool) (s : List Char) :
    (s.dropWhile p).length ≤ s.length := (List.dropWhile_suffix p).length_le

theorem length_readWord_le (s : List Char) : (readWord s).2.length ≤ s.length :=
  length_dropWhile_le ..

theorem length_skipComment_le (s : List Char) : (skipComment s).length ≤ s.length := by
  have := length_dropWhile_le (· != '\n') s
  simp only [skipComment, List.length_tail]
  omega

theorem length_readLiteral_le (s : List Char) : (readLiteral s).2.length ≤ s.length := by
  fun_induction readLiteral s with
  | case1 => simp
  | case2 => simp
  | case3 => simp
  | case4 e rest more _ ih =>
    simp only [List.length_cons, more]
    omega
  | case5 c rest _ _ more ih =>
    simp only [List.length_cons, more]
    omega

/-! ### Predicates -/

/-- The arguments of a predicate up to its closing parenthesis, and the rest after it. -/
def readArguments (s : List Char) : List Argument × List Char :=
  match _h : Text.trimStart s with
  | [] => ([], [])
  | c :: rest =>
    if c = ')' then ([], rest)
    else if c = ';' then readArguments (skipComment rest)
    else if c = '@' then
      let word := readWord rest
      let more := readArguments word.2
      (.capture (.ofList word.1) :: more.1, more.2)
    else if c = '"' then
      let literal := readLiteral rest
      let more := readArguments literal.2
      (.text (.ofList literal.1) :: more.1, more.2)
    else
      let word := readWord rest
      let more := readArguments word.2
      (.text (.ofList (c :: word.1)) :: more.1, more.2)
termination_by s.length
decreasing_by
  all_goals
    have hs : (Text.trimStart s).length ≤ s.length := length_dropWhile_le ..
    rw [_h, List.length_cons] at hs
    have := length_skipComment_le rest
    have := length_readWord_le rest
    have := length_readLiteral_le rest
    omega

/-- A predicate after its `#`, and the rest after it. -/
def readPredicate (s : List Char) : Predicate × List Char :=
  let word := readWord s
  let more := readArguments word.2
  (⟨.ofList word.1, more.1⟩, more.2)

theorem length_readArguments_le (s : List Char) : (readArguments s).2.length ≤ s.length := by
  fun_induction readArguments s with
  | case1 => simp
  | case2 s rest h =>
    have hs : (Text.trimStart s).length ≤ s.length := length_dropWhile_le ..
    rw [h, List.length_cons] at hs
    simp
    omega
  | case3 s rest h _ ih =>
    have hs : (Text.trimStart s).length ≤ s.length := length_dropWhile_le ..
    rw [h, List.length_cons] at hs
    have := length_skipComment_le rest
    omega
  | case4 s rest word more h _ _ ih =>
    have hs : (Text.trimStart s).length ≤ s.length := length_dropWhile_le ..
    rw [h, List.length_cons] at hs
    have := length_readWord_le rest
    simp only [word, more] at ih ⊢
    omega
  | case5 s rest literal more h _ _ _ ih =>
    have hs : (Text.trimStart s).length ≤ s.length := length_dropWhile_le ..
    rw [h, List.length_cons] at hs
    have := length_readLiteral_le rest
    simp only [literal, more] at ih ⊢
    omega
  | case6 s c rest h _ _ _ _ word more ih =>
    have hs : (Text.trimStart s).length ≤ s.length := length_dropWhile_le ..
    rw [h, List.length_cons] at hs
    have := length_readWord_le rest
    simp only [word, more] at ih ⊢
    omega

theorem length_readPredicate_le (s : List Char) : (readPredicate s).2.length ≤ s.length :=
  Nat.le_trans (length_readArguments_le _) (length_readWord_le s)

/-- The predicates of a text, in order. -/
def scan : List Char → List Predicate
  | [] => []
  | c :: rest =>
    if c = '"' then scan (readLiteral rest).2
    else if c = ';' then scan (skipComment rest)
    else if c = '(' then
      match _h : Text.trimStart rest with
      | [] => []
      | d :: inner =>
        if d = '#' then
          let found := readPredicate inner
          found.1 :: scan found.2
        else scan (d :: inner)
    else scan rest
termination_by s => s.length
decreasing_by
  all_goals
    have := length_readLiteral_le rest
    have := length_skipComment_le rest
    simp only [List.length_cons]
    try omega
  all_goals
    have hs : (Text.trimStart rest).length ≤ rest.length := length_dropWhile_le ..
    rw [_h, List.length_cons] at hs
    have := length_readPredicate_le inner
    omega

end PredicateText

namespace Predicate

/-- The predicates that stand in a text, in order. -/
def allIn (text : String) : List Predicate := PredicateText.scan text.toList

end Predicate

end SyntaxView
