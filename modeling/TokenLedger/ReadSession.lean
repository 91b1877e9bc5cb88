import TokenLedger.Block.Codec

/-!
# Reading on

A session asks a reader for one value after the other, and goes on after a failure from where the
reader stopped. It ends early only where a slice behind the end of the buffer is taken.

Embeds what a caller can do with one `ByteReader` (`serialization::primitives`), which a failed read
leaves usable.
-/

namespace TokenLedger

/-- What a reader can be asked for. -/
inductive ReadRequest where
  | uint8 | uint16 | uint32 | uint32BE | uint64 | int64
  | varInt
  | bytes (count : Nat) | fixed (count : Nat)
  | varBytes | optionalBytes | optionalText
  | output | transaction (maximumCount : UInt64) | header
  deriving DecidableEq, Repr

namespace ReadRequest

/-- What is read. -/
def Value : ReadRequest → Type
  | uint8 => UInt8
  | uint16 => UInt16
  | uint32 | uint32BE => UInt32
  | uint64 | varInt => UInt64
  | int64 => Int64
  | bytes _ | varBytes => Bytes
  | fixed count => FixedBytes count
  | optionalBytes => Option Bytes
  | optionalText => Option String
  | output => Output
  | transaction _ => Transaction
  | header => Header

/-- The reader of a request. Outputs, transactions and headers name their own fields. -/
def read (strictness : Strictness) (field : String) : (request : ReadRequest) → ReadM request.Value
  | uint8 => readUInt8 field
  | uint16 => readUInt16 field
  | uint32 => readUInt32 field
  | uint32BE => readUInt32BE field
  | uint64 => readUInt64 field
  | int64 => readInt64 field
  | varInt => readVarInt strictness field
  | bytes count => readBytes field count
  | fixed count => readFixed field count
  | varBytes => readVarBytes strictness field
  | optionalBytes => readOptionalBytes field
  | optionalText => readOptionalText field
  | output => Output.read strictness
  | transaction maximumCount => Transaction.read { strictness, maximumCount }
  | header => Header.read

end ReadRequest

/-- A read for a field: where it began, what came of it and where the reader stopped. -/
structure ReadStep where
  field : String
  request : ReadRequest
  before : Cursor
  outcome : Except DecodeError request.Value
  after : Cursor

/-- There is no way on from here. -/
def ReadStep.aborts (step : ReadStep) : Bool :=
  match step.outcome with
  | .error (.outOfRange ..) => true
  | _ => false

namespace ReadRequest

def stepAt (strictness : Strictness) (field : String) (request : ReadRequest) (c : Cursor) :
    ReadStep :=
  match request.read strictness field c with
  | .ok value after => ⟨field, request, c, .ok value, after⟩
  | .error e after => ⟨field, request, c, .error e, after⟩

/-- One read after the other, each from where the one before it stopped. -/
def session (strictness : Strictness) (c : Cursor) : List (String × ReadRequest) → List ReadStep
  | [] => []
  | (field, request) :: requests =>
    let step := request.stepAt strictness field c
    if step.aborts then [step] else step :: session strictness step.after requests

end ReadRequest

end TokenLedger
