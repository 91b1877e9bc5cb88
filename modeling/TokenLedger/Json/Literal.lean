import TokenLedger.Text.Characters

/-!
# Literals of JSON

Numbers and strings as they are written. The grammar of numbers is an automaton over their
characters; a string is the text between its quotes, in which a backslash starts an escape.

Stands, with the other modules of JSON, for the package `serde_json`, which is not part of the
modelled sources.
-/

namespace TokenLedger.Json

abbrev Literal := List Char

/-! ### Numbers -/

/-- How much of a number has been read. -/
inductive NumberState where
  | start | minus | zero | whole | point | fraction | mark | markSign | exponent
  deriving DecidableEq, Repr

namespace NumberState

/-- The state after one more character; none if no number goes on like this. -/
def next? (state : NumberState) (c : Char) : Option NumberState :=
  let onDigit (after : NumberState) : Option NumberState :=
    if c.isDigit then some after else none
  match state with
  | start => if c = '-' then some minus else if c = '0' then some zero else onDigit whole
  | minus => if c = '0' then some zero else onDigit whole
  | zero =>
    if c = '.' then some point else if c = 'e' ∨ c = 'E' then some mark else none
  | whole =>
    if c = '.' then some point else if c = 'e' ∨ c = 'E' then some mark else onDigit whole
  | point => onDigit fraction
  | fraction => if c = 'e' ∨ c = 'E' then some mark else onDigit fraction
  | mark => if c = '+' ∨ c = '-' then some markSign else onDigit exponent
  | markSign => onDigit exponent
  | exponent => onDigit exponent

/-- A number may end here. -/
def isFinal : NumberState → Bool
  | zero | whole | fraction | exponent => true
  | _ => false

end NumberState

def isNumber (literal : Literal) : Bool :=
  match literal.foldlM NumberState.next? .start with
  | some state => state.isFinal
  | none => false

/-- A character that occurs in numbers. -/
def isNumberChar (c : Char) : Bool :=
  c.isDigit || c == '-' || c == '+' || c == '.' || c == 'e' || c == 'E'

/-! ### Strings -/

/-- The characters with an escape of one letter, behind their letters. -/
def shortEscapes : List (Char × Char) :=
  [('"', '"'), ('\\', '\\'), ('/', '/'), ('b', '\x08'), ('f', '\x0c'), ('n', '\n'), ('r', '\r'),
   ('t', '\t')]

/-- Reads a string from behind its opening quote: the literal, and the text behind the closing
quote. -/
def stringLiteral? : List Char → Option (Literal × List Char)
  | [] => none
  | '"' :: rest => some ([], rest)
  | '\\' :: 'u' :: a :: b :: c :: d :: rest => do
    let _ ← Text.ofHex? [a, b, c, d]
    let (literal, rest) ← stringLiteral? rest
    return ('\\' :: 'u' :: a :: b :: c :: d :: literal, rest)
  | '\\' :: letter :: rest => do
    let _ ← shortEscapes.lookup letter
    let (literal, rest) ← stringLiteral? rest
    return ('\\' :: letter :: literal, rest)
  | c :: rest =>
    if c < ' ' then none
    else do
      let (literal, rest) ← stringLiteral? rest
      return (c :: literal, rest)

/-- The first half of a surrogate pair. -/
def isHighSurrogate (unit : Nat) : Bool := 0xd800 ≤ unit && unit < 0xdc00

/-- The second half of a surrogate pair. -/
def isLowSurrogate (unit : Nat) : Bool := 0xdc00 ≤ unit && unit < 0xe000

/-- The character of a surrogate pair. -/
def ofSurrogates (high low : Nat) : Char :=
  Char.ofNat (0x10000 + (high - 0xd800) * 0x400 + (low - 0xdc00))

/-- The text of a string literal; none if it holds half of a surrogate pair. -/
def unescape? : Literal → Option (List Char)
  | [] => some []
  | '\\' :: 'u' :: a :: b :: c :: d :: '\\' :: 'u' :: e :: f :: g :: h :: rest => do
    let first ← Text.ofHex? [a, b, c, d]
    if isHighSurrogate first then
      let second ← Text.ofHex? [e, f, g, h]
      guard (isLowSurrogate second)
      return ofSurrogates first second :: (← unescape? rest)
    else
      guard (!isLowSurrogate first)
      return Char.ofNat first :: (← unescape? ('\\' :: 'u' :: e :: f :: g :: h :: rest))
  | '\\' :: 'u' :: a :: b :: c :: d :: rest => do
    let unit ← Text.ofHex? [a, b, c, d]
    guard (!isHighSurrogate unit && !isLowSurrogate unit)
    return Char.ofNat unit :: (← unescape? rest)
  | '\\' :: letter :: rest => do
    return (← shortEscapes.lookup letter) :: (← unescape? rest)
  | c :: rest => do
    return c :: (← unescape? rest)

end TokenLedger.Json
