import TokenLedger.VarInt

/-!
# Wire bytes

A reader moves a cursor over a buffer. Each read names the field it is for and checks what remains
before it takes anything, so bytes that run out are reported with that field and the offset where
it starts. A read that fails leaves the cursor where it stopped, and reading may go on from there.
What the readers take apart is put together by the writers: fixed-width integers, byte strings
behind their length, and optional byte strings behind a presence flag.

Embeds `ByteReader` with its reads, and the `write_` functions beside it
(`serialization::primitives`), and `read_count` (`serialization::transaction`).
-/

namespace TokenLedger

/-! ### Writing -/

def encodeUInt32 (value : UInt32) : Bytes := Bytes.littleEndian 4 value.toNat

def encodeUInt32BE (value : UInt32) : Bytes := Bytes.bigEndian 4 value.toNat

def encodeUInt64 (value : UInt64) : Bytes := Bytes.littleEndian 8 value.toNat

/-- Two's complement. -/
def encodeInt64 (value : Int64) : Bytes := encodeUInt64 value.toUInt64

/-- How many there are, as a compact integer. -/
def encodeCount (count : Nat) : Bytes := VarInt.encode (UInt64.ofNat count)

def encodeVarBytes (bytes : Bytes) : Bytes := encodeCount bytes.length ++ bytes

/-- The length of the bytes is cut to 32 bits. -/
def encodeOptionalBytes : Option Bytes → Bytes
  | none => [0]
  | some bytes => 1 :: (Bytes.littleEndian 4 bytes.length ++ bytes)

def encodeOptionalText (text : Option String) : Bytes :=
  encodeOptionalBytes (text.map Utf8.encode)

/-! ### Reading -/

/-- A place in a buffer, and the bytes from there on. -/
structure Cursor where
  position : Nat
  rest : Bytes
  /-- How far the place lies behind the end of the buffer, where nothing remains. -/
  beyond : Nat
  deriving DecidableEq, Repr

namespace Cursor

/-- The cursor at an offset of a buffer. -/
def ofBuffer (buffer : Bytes) (offset : Nat) : Cursor :=
  ⟨offset, buffer.drop offset, offset - buffer.length⟩

def remaining (c : Cursor) : Nat := c.rest.length

def atEnd (c : Cursor) : Bool := c.rest.isEmpty

def advance (c : Cursor) (n : Nat) : Cursor := ⟨c.position + n, c.rest.drop n, c.beyond⟩

end Cursor

/-- A reader moves a cursor and yields a value or the reason why it stopped. -/
abbrev ReadM := EStateM DecodeError Cursor

namespace ReadM

/-- Runs a reader at an offset: its value and the number of bytes it took. -/
def decodeAt {α : Type} (read : ReadM α) (buffer : Bytes) (offset : Nat) :
    Except DecodeError (α × Nat) :=
  match read (Cursor.ofBuffer buffer offset) with
  | .ok value c => .ok (value, c.position - offset)
  | .error e _ => .error e

/-- Runs a reader that has to take the whole buffer, which is one `field`. -/
def decodeAll {α : Type} (read : ReadM α) (field : String) (buffer : Bytes) :
    Except DecodeError α :=
  match read (Cursor.ofBuffer buffer 0) with
  | .ok value c =>
    if c.atEnd then .ok value
    else .error (.malformed field c.position (.trailingBytes c.remaining))
  | .error e _ => .error e

end ReadM

/-- Exactly `n` bytes. Only their number is compared with what remains: no bytes are asked for in
vain behind the end, and there is no slice for them there. -/
def readFixed (field : String) (n : Nat) : ReadM (FixedBytes n) := fun c =>
  if h : n ≤ c.rest.length then
    if c.beyond = 0 then .ok ⟨c.rest.take n, by simp [h]⟩ (c.advance n)
    else .error (.outOfRange c.position (c.position - c.beyond)) c
  else .error (.truncated field c.position n c.remaining) c

def readBytes (field : String) (n : Nat) : ReadM Bytes := do
  return (← readFixed field n).val

/-- A number that is written in `width` bytes. -/
def readNumber {α : Type} (width : Nat) (ofBytes : Bytes → α) (field : String) : ReadM α := do
  return ofBytes (← readBytes field width)

def readUInt8 : String → ReadM UInt8 :=
  readNumber 1 fun bytes => .ofNat (Bytes.ofLittleEndian bytes)

def readUInt16 : String → ReadM UInt16 :=
  readNumber 2 fun bytes => .ofNat (Bytes.ofLittleEndian bytes)

def readUInt32 : String → ReadM UInt32 :=
  readNumber 4 fun bytes => .ofNat (Bytes.ofLittleEndian bytes)

def readUInt32BE : String → ReadM UInt32 :=
  readNumber 4 fun bytes => .ofNat (Bytes.ofBigEndian bytes)

def readUInt64 : String → ReadM UInt64 :=
  readNumber 8 fun bytes => .ofNat (Bytes.ofLittleEndian bytes)

/-- Two's complement. -/
def readInt64 : String → ReadM Int64 :=
  readNumber 8 fun bytes => (UInt64.ofNat (Bytes.ofLittleEndian bytes)).toInt64

def readVarInt (strictness : Strictness) (field : String) : ReadM UInt64 := fun c =>
  match VarInt.decode field c.position strictness c.rest with
  | .ok v => .ok v.value (c.advance v.width)
  | .error e => .error e c

/-- A byte string behind its length. -/
def readVarBytes (strictness : Strictness) (field : String) : ReadM Bytes := do
  readBytes field (← readVarInt strictness field).toNat

/-- An optional byte string: a presence flag, and if it is set a 32-bit length and the bytes. -/
def readOptionalBytes (field : String) : ReadM (Option Bytes) := do
  let start := (← get).position
  match ← readUInt8 field with
  | 0 => return none
  | 1 => return some (← readBytes field (← readUInt32 field).toNat)
  | flag => throw (.malformed field start (.presenceFlag flag))

def readOptionalText (field : String) : ReadM (Option String) := do
  let start := (← get).position
  match ← readOptionalBytes field with
  | none => return none
  | some bytes =>
    match Utf8.decode bytes with
    | .ok text => return some text
    | .error fault => throw (.malformed field start (.notText fault))

/-- A declared number of elements, which may not exceed `maximum`. -/
def readCount (strictness : Strictness) (maximum : UInt64) (field : String) : ReadM Nat := do
  let start := (← get).position
  let count ← readVarInt strictness field
  if maximum < count then throw (.malformed field start (.countAboveMaximum count maximum))
  return count.toNat

/-- One element after the other. -/
def readMany {α : Type} (read : ReadM α) : Nat → ReadM (List α)
  | 0 => return []
  | n + 1 => do
    let first ← read
    return first :: (← readMany read n)

end TokenLedger
