/-!
# Blanks and digits

The characters with the Unicode property White_Space, and texts without them at their ends. Natural
numbers in decimal or hexadecimal digits: a text of digits has at least one of them; zeros may lead
it, and hexadecimal digits are of either case.

Policies are written with both, by packages that are not part of the modelled sources. Nothing here
belongs to one of them alone.
-/

namespace TokenLedger.Text

/-! ### Blanks -/

/-- The blank characters, as closed ranges of code points. -/
def blankRanges : List (Nat × Nat) :=
  [(0x09, 0x0d), (0x20, 0x20), (0x85, 0x85), (0xa0, 0xa0), (0x1680, 0x1680), (0x2000, 0x200a),
   (0x2028, 0x2029), (0x202f, 0x202f), (0x205f, 0x205f), (0x3000, 0x3000)]

def isBlank (c : Char) : Bool :=
  blankRanges.any fun (low, high) => low ≤ c.toNat && c.toNat ≤ high

/-- Drops the blanks at both ends. -/
def trim (text : List Char) : List Char :=
  ((text.dropWhile isBlank).reverse.dropWhile isBlank).reverse

/-! ### Digits -/

def hexValue? (c : Char) : Option Nat :=
  if c.isDigit then some (c.toNat - '0'.toNat)
  else if 'a' ≤ c ∧ c ≤ 'f' then some (c.toNat - 'a'.toNat + 10)
  else if 'A' ≤ c ∧ c ≤ 'F' then some (c.toNat - 'A'.toNat + 10)
  else none

def ofHex? (digits : List Char) : Option Nat :=
  if digits.isEmpty then none
  else digits.foldlM (fun n c => (hexValue? c).map (16 * n + ·)) 0

def ofDecimal? (digits : List Char) : Option Nat :=
  if digits.isEmpty || !digits.all Char.isDigit then none
  else some (Nat.ofDigitChars 10 digits 0)

/-- The lower-case digits of a number, none of them a leading zero unless it is zero. -/
def hexDigits (n : Nat) : List Char := Nat.toDigits 16 n

def decimalDigits (n : Nat) : List Char := Nat.toDigits 10 n

end TokenLedger.Text
