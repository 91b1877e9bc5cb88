import TokenLedger.Error

/-!
# Compact integers

Every count and every length on the wire is a compact integer: one byte below `0xfd`, otherwise a
marker and two, four or eight bytes, least significant first. A value is written in its least
width. Wider forms are read as well, unless the codec is strict.

Embeds `VarInt` with `size_of`, `encode`, `decode` and `is_canonical` (`serialization::varint`).
-/

namespace TokenLedger

/-- What a codec makes of integers that are wider than necessary. -/
inductive Strictness where
  | lenient | strict
  deriving DecidableEq, Repr

/-- A compact integer as it was read: its value and the number of bytes it took. -/
structure VarInt where
  value : UInt64
  width : Nat
  deriving DecidableEq, Repr

namespace VarInt

/-- The least number of bytes for a value. -/
def size (value : UInt64) : Nat :=
  if value < 0xfd then 1
  else if value ≤ 0xffff then 3
  else if value ≤ 0xffffffff then 5
  else 9

def ofValue (value : UInt64) : VarInt := ⟨value, size value⟩

def isCanonical (v : VarInt) : Bool := v.width = size v.value

def encode (value : UInt64) : Bytes :=
  if value < 0xfd then [value.toUInt8]
  else if value ≤ 0xffff then 0xfd :: Bytes.littleEndian 2 value.toNat
  else if value ≤ 0xffffffff then 0xfe :: Bytes.littleEndian 4 value.toNat
  else 0xff :: Bytes.littleEndian 8 value.toNat

/-- The number of bytes that a first byte announces after itself. -/
def announced (marker : UInt8) : Nat :=
  if marker = 0xfd then 2 else if marker = 0xfe then 4 else if marker = 0xff then 8 else 0

/-- Reads the integer at the head of `bytes`, which stand at `offset`. -/
def decode (field : String) (offset : Nat) (strictness : Strictness) (bytes : Bytes) :
    Except DecodeError VarInt :=
  match bytes with
  | [] => .error (.truncated field offset 1 0)
  | marker :: payload =>
    let width := announced marker
    if width = 0 then .ok ⟨marker.toUInt64, 1⟩
    else if payload.length < width then
      .error (.truncated field offset (1 + width) (1 + payload.length))
    else
      let v : VarInt := ⟨UInt64.ofNat (Bytes.ofLittleEndian (payload.take width)), 1 + width⟩
      if strictness = .strict ∧ ¬ v.isCanonical then
        .error (.malformed field offset (.wideVarInt v.value v.width))
      else .ok v

/-- The integer at an offset of a buffer. -/
def decodeAt (field : String) (strictness : Strictness) (buffer : Bytes) (offset : Nat) :
    Except DecodeError VarInt :=
  decode field offset strictness (buffer.drop offset)

end VarInt

end TokenLedger
