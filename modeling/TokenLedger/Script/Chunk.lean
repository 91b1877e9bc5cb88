import TokenLedger.Error
import TokenLedger.Opcode

/-!
# Chunks

A script is a sequence of chunks: single opcodes, and pushes of data. A push of up to 75 bytes is
announced by a code equal to their number, a longer one by one of three codes with a length field.
Parsing yields well-formed chunks only, but a chunk may be put together in any way.

Embeds `ChunkKind` and `ScriptChunk` with `encoded_len`, `write` and
`is_shortest_possible_push_data`, `push_data_bytes`, and one step of `Script::parse` (`script`).
-/

namespace TokenLedger

inductive Chunk where
  | op (code : UInt8)
  | push (code : UInt8) (data : Bytes)
  deriving DecidableEq, Repr

namespace Chunk

def code : Chunk → UInt8
  | op code => code
  | push code _ => code

def data? : Chunk → Option Bytes
  | op _ => none
  | push _ data => some data

/-- The code is beyond those that announce data. The numbers -1 and 1 to 16 count as opcodes, and
as pushes too. -/
def isOpcode (chunk : Chunk) : Bool := Opcode.pushData4 < chunk.code

/-- The code only puts a value on the stack. -/
def isPush (chunk : Chunk) : Bool := chunk.code ≤ Opcode.sixteen

def number? (chunk : Chunk) : Option Int := Opcode.number? chunk.code

/-- The code that announces so many bytes of data. -/
def pushCode (length : Nat) : UInt8 :=
  if length < 76 then UInt8.ofNat length
  else if length < 256 then Opcode.pushData1
  else if length < 65536 then Opcode.pushData2
  else Opcode.pushData4

/-- The shortest chunk that has the data in it. -/
def ofData (data : Bytes) : Chunk := push (pushCode data.length) data

/-- No shorter chunk stands for the same data. -/
def isShortestPush : Chunk → Bool
  | op _ => true
  | push code data =>
    match data with
    | [b] =>
      if 1 ≤ b ∧ b ≤ 16 then code == Opcode.one + b - 1
      else if b = 0x81 then code == Opcode.minusOne
      else code == 1
    | _ => code == pushCode data.length

/-- The width of the length field behind a code; none if no data belongs to the code. -/
def lengthWidth? (code : UInt8) : Option Nat :=
  if code < Opcode.pushData1 then some 0
  else if code = Opcode.pushData1 then some 1
  else if code = Opcode.pushData2 then some 2
  else if code = Opcode.pushData4 then some 4
  else none

/-- The length of the data is cut to the width of its field. -/
def encode : Chunk → Bytes
  | op code => [code]
  | push code data =>
    code :: (Bytes.littleEndian ((lengthWidth? code).getD 0) data.length ++ data)

/-- The number of bytes that a chunk takes: its code, the length field behind it, and the data. -/
def encodedLength : Chunk → Nat
  | op _ => 1
  | push code data => 1 + (lengthWidth? code).getD 0 + data.length

@[simp] theorem length_encode (chunk : Chunk) : chunk.encode.length = chunk.encodedLength := by
  cases chunk with
  | op code => rfl
  | push code data =>
    simp only [encode, encodedLength, List.length_cons, List.length_append,
      Bytes.littleEndian_length]
    omega

def encodeData (data : Bytes) : Bytes := (ofData data).encode

/-- The number of bytes that a code and the length field behind it announce. -/
def announcedLength (code : UInt8) (field : Bytes) : Nat :=
  if field.isEmpty then code.toNat else Bytes.ofLittleEndian field

/-- The chunk that starts with a code, from the bytes behind it, and the bytes left. -/
def parse (code : UInt8) (bytes : Bytes) : Except ParseFault (Chunk × Bytes) :=
  match lengthWidth? code with
  | none => .ok (op code, bytes)
  | some width =>
    let (field, body) := bytes.splitAt width
    if field.length < width then .error .lengthCutShort
    else if body.length < announcedLength code field then .error .dataCutShort
    else
      let (data, rest) := body.splitAt (announcedLength code field)
      .ok (push code data, rest)

theorem length_le_of_parse {code : UInt8} {bytes rest : Bytes} {chunk : Chunk}
    (h : parse code bytes = .ok (chunk, rest)) : rest.length ≤ bytes.length := by
  simp only [parse, List.splitAt_eq] at h
  split at h
  · cases h; exact Nat.le_refl _
  · split at h
    · cases h
    · split at h
      · cases h
      · cases h
        simp only [List.length_drop]
        omega

/-- The name of an opcode, or the code and data of a push. -/
def toText : Chunk → String
  | op code => (Opcode.name? code).getD s!"NON_OP({code})"
  | push code data =>
    if code = Opcode.empty then "0"
    else
      let name :=
        if code = Opcode.pushData1 then "PUSHDATA1"
        else if code = Opcode.pushData2 then "PUSHDATA2"
        else if code = Opcode.pushData4 then "PUSHDATA4"
        else s!"PUSHDATA({code})"
      name ++ "[" ++ Bytes.toHex data ++ "]"

end Chunk

end TokenLedger
