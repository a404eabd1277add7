/-!
# UTF-8

Encoding and the two ways of decoding: strict decoding, which refuses the whole text, and lossy
decoding, which puts one replacement character in the place of each maximal ill-formed subpart.

Both decoders are one machine that reads a byte at a time.  Its state (`Pending`) says what is
still owed: nothing, or a number of continuation bytes, the first of them from a range that
depends on the lead byte (this range is what keeps out overlong forms, surrogates and values above
`U+10FFFF`).  A byte that cannot continue the pending character ends it as ill-formed and is then
read again as the first byte of what follows, so a lead byte and the continuation bytes it did get
are replaced by one character together.
-/

namespace SyntaxView.Text.Utf8

/-- `U+FFFD`, which stands for what could not be decoded. -/
def replacement : Char := Char.ofNat 0xFFFD

/-- The bytes of a text. -/
def encode (s : List Char) : List UInt8 := s.flatMap String.utf8EncodeChar

/-- The number of bytes of a text. -/
def size : List Char → Nat
  | [] => 0
  | c :: s => c.utf8Size + size s

/-! ### The machine -/

/-- What the machine still waits for. -/
inductive Pending where
  /-- Nothing: the next byte starts a character. -/
  | none
  /-- `owed + 1` continuation bytes, the first of them from `low` to `high`; `value` holds the
  bits read so far. -/
  | some (owed : Nat) (low high : Nat) (value : Nat)
  deriving Repr, DecidableEq

/-- What one byte does to the machine when it starts a character: the character it completes, if
any, and what is pending afterwards.  A byte that starts no character is ill-formed by itself. -/
def start (b : UInt8) : List (Option Char) × Pending :=
  let n := b.toNat
  if n < 0x80 then ([some (Char.ofNat n)], .none)
  else if n < 0xC2 then ([none], .none)
  else if n < 0xE0 then ([], .some 0 0x80 0xBF (n % 32))
  else if n == 0xE0 then ([], .some 1 0xA0 0xBF 0)
  else if n == 0xED then ([], .some 1 0x80 0x9F 13)
  else if n < 0xF0 then ([], .some 1 0x80 0xBF (n % 16))
  else if n == 0xF0 then ([], .some 2 0x90 0xBF 0)
  else if n < 0xF4 then ([], .some 2 0x80 0xBF (n % 8))
  else if n == 0xF4 then ([], .some 2 0x80 0x8F 4)
  else ([none], .none)

/-- One byte: the characters it settles, an ill-formed subpart as `none`, and what is pending
afterwards. -/
def step : Pending → UInt8 → List (Option Char) × Pending
  | .none, b => start b
  | .some owed low high value, b =>
    if low ≤ b.toNat && b.toNat ≤ high then
      let value := value * 64 + b.toNat % 64
      match owed with
      | 0 => ([some (Char.ofNat value)], .none)
      | owed + 1 => ([], .some owed 0x80 0xBF value)
    else
      (none :: (start b).1, (start b).2)

/-- What the end of the bytes settles: a character still pending is ill-formed. -/
def finish : Pending → List (Option Char)
  | .none => []
  | .some .. => [none]

/-- The characters of the bytes, an ill-formed subpart as `none`. -/
def run : Pending → List UInt8 → List (Option Char)
  | p, [] => finish p
  | p, b :: bs => (step p b).1 ++ run (step p b).2 bs

/-! ### The decoders -/

/-- The characters of the bytes, each maximal ill-formed subpart replaced by one `U+FFFD`. -/
def decodeLossy (bytes : List UInt8) : List Char :=
  (run .none bytes).map (·.getD replacement)

/-- The characters of the bytes, if they are well formed. -/
def decode? (bytes : List UInt8) : Option (List Char) :=
  (run .none bytes).mapM id

end SyntaxView.Text.Utf8
