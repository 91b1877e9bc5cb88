import TokenLedger.Bytes

/-!
# UTF-8 text in byte strings

Text is carried as its UTF-8 bytes. A byte string that is no text is described by the place where
it stops being one: the start of the first character that cannot be completed, and how many bytes
of it could still have led somewhere.

Embeds the check that `read_nbytes_string` makes, with its error (`serialization::primitives`).
-/

namespace TokenLedger.Utf8

inductive Fault where
  /-- The `length` bytes from `index` on start no character. -/
  | invalid (length index : Nat)
  /-- The bytes end inside the character that starts at `index`. -/
  | incomplete (index : Nat)
  deriving DecidableEq, Repr

def Fault.message : Fault → String
  | .invalid length index => s!"invalid utf-8 sequence of {length} bytes from index {index}"
  | .incomplete index => s!"incomplete utf-8 byte sequence from index {index}"

/-- A closed range of byte values. -/
structure ByteRange where
  low : UInt8
  high : UInt8

def ByteRange.contains (r : ByteRange) (b : UInt8) : Bool := r.low ≤ b && b ≤ r.high

def continuation : ByteRange := ⟨0x80, 0xbf⟩

/-- The ranges of the bytes that must follow a lead byte; none if it starts no character.
The first of them is narrowed where a longer form, a surrogate or a code point beyond the last
would begin. -/
def owedAfter (lead : UInt8) : Option (List ByteRange) :=
  if lead < 0x80 then some []
  else if lead < 0xc2 then none
  else if lead < 0xe0 then some [continuation]
  else if lead = 0xe0 then some [⟨0xa0, 0xbf⟩, continuation]
  else if lead = 0xed then some [⟨0x80, 0x9f⟩, continuation]
  else if lead < 0xf0 then some [continuation, continuation]
  else if lead = 0xf0 then some [⟨0x90, 0xbf⟩, continuation, continuation]
  else if lead < 0xf4 then some [continuation, continuation, continuation]
  else if lead = 0xf4 then some [⟨0x80, 0x8f⟩, continuation, continuation]
  else none

/-- The fault met when `seen` bytes of the character at `start` are read and `owed` are to come. -/
def faultFrom (start seen : Nat) (owed : List ByteRange) : Bytes → Fault
  | [] => .incomplete start
  | b :: bytes =>
    match owed with
    | [] =>
      match owedAfter b with
      | none => .invalid 1 (start + seen)
      | some owed => faultFrom (start + seen) 1 owed bytes
    | range :: owed =>
      if range.contains b then faultFrom start (seen + 1) owed bytes else .invalid seen start

/-- The first fault of a byte string that is not UTF-8. -/
def fault (bytes : Bytes) : Fault := faultFrom 0 0 [] bytes

def encode (text : String) : Bytes := text.toUTF8.toList

def decode (bytes : Bytes) : Except Fault String :=
  match String.fromUTF8? bytes.toByteArray with
  | some text => .ok text
  | none => .error (fault bytes)

end TokenLedger.Utf8
