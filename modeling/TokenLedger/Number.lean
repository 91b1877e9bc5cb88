import TokenLedger.Wire

/-!
# Signed numbers in byte strings

A signed number is written as the bytes of its magnitude with the sign in the top bit; a zero byte
is put in front where the magnitude needs that bit itself. Zero is the empty string. Most
significant byte first, and optionally behind its length, this is the multi-precision form; least
significant byte first it is the number of a script.

Embeds `encode_mpi` and `decode_mpi` (`serialization::primitives`), and `cast_to_bool`,
`cast_to_big_int` and `encode_num` (`script::interpreter`). Their numbers are those of the package
`num-bigint`, which is not part of the modelled sources: integers of any size stand for them.
-/

namespace TokenLedger

namespace Number

/-- The bytes of a magnitude with room for a sign: a zero byte comes first if the top bit is
taken. -/
def withSignBit (magnitude : Bytes) : Bytes :=
  match magnitude with
  | [] => []
  | b :: _ => if b < 0x80 then magnitude else 0 :: magnitude

/-- A number that is never negative. Zero takes one byte. -/
def encodeNat (n : Nat) : Bytes :=
  match withSignBit (Bytes.magnitudeBE n) with
  | [] => [0]
  | bytes => bytes

/-- Sets the top bit of the first byte. -/
def negated : Bytes → Bytes
  | [] => []
  | b :: bytes => (b ||| 0x80) :: bytes

/-- Most significant byte first. -/
def encodeBE (n : Int) : Bytes :=
  let magnitude := withSignBit (Bytes.magnitudeBE n.natAbs)
  if n < 0 then negated magnitude else magnitude

def decodeBE : Bytes → Int
  | [] => 0
  | b :: bytes =>
    if b < 0x80 then Bytes.ofBigEndian (b :: bytes)
    else -(Bytes.ofBigEndian ((b &&& 0x7f) :: bytes) : Int)

/-- The multi-precision form behind its length, which is cut to 32 bits. -/
def encodeWithLength (n : Int) : Bytes :=
  let body := encodeBE n
  Bytes.bigEndian 4 body.length ++ body

/-- Bytes behind the announced length are left alone. -/
def decodeWithLength (bytes : Bytes) : Except DecodeError Int :=
  let read : ReadM Int := do
    let length ← readUInt32BE "mpi.length"
    return decodeBE (← readBytes "mpi" length.toNat)
  (read.decodeAt bytes 0).map Prod.fst

end Number

namespace ScriptNumber

/-- The widest operand of arithmetic. -/
def operandWidth : Nat := 4

/-- The widest lock time: a fifth byte carries times that four cannot. -/
def lockTimeWidth : Nat := 5

/-- Least significant byte first, in the fewest bytes. -/
def encode (n : Int) : Bytes := (Number.encodeBE n).reverse

/-- The last byte holds more than a sign, or the sign would not fit the byte before. -/
def isMinimal (bytes : Bytes) : Bool :=
  match bytes.reverse with
  | [] => true
  | [last] => last &&& 0x7f != 0
  | last :: before :: _ => last &&& 0x7f != 0 || before &&& 0x80 != 0

def decode (maxWidth : Nat) (requireMinimal : Bool) (bytes : Bytes) : Except Error Int :=
  if maxWidth < bytes.length then .error (.evaluation .numberOverflow)
  else if requireMinimal && !isMinimal bytes then .error (.evaluation .minimalData)
  else .ok (Number.decodeBE bytes.reverse)

/-- The truth of a stack element: some byte is not zero, and it is not only the sign. -/
def isTrue : Bytes → Bool
  | [] => false
  | [last] => last != 0 && last != 0x80
  | b :: bytes => b != 0 || isTrue bytes

/-- The element that stands for a truth value. -/
def ofBool (b : Bool) : Bytes := if b then [1] else []

end ScriptNumber

end TokenLedger
