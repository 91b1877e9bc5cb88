import TokenLedger.Hash.Sha256
import TokenLedger.Transaction.Basic

/-!
# Wire form of transactions

The version, the inputs behind their count, the outputs behind theirs, the lock time, and the four
optional fields of the tail. The identifier of a transaction is the hash of the whole of it.

Embeds `CodecConfig` (`config`), `write_input`, `write_tail`, `write_transaction`, `read_input`,
`read_transaction` and `deserialize_transaction_with` (`serialization::transaction`), and
`Transaction::hash` (`transaction`).
-/

namespace TokenLedger

/-- What a decoder accepts. -/
structure CodecPolicy where
  strictness : Strictness := .lenient
  /-- The most elements that a list may declare. -/
  maximumCount : UInt64 := 1000000
  deriving DecidableEq, Repr

namespace Input

def encode (input : Input) : Bytes :=
  input.prevout.transaction.val ++ encodeUInt32 input.prevout.index
    ++ encodeVarBytes input.unlockingScript ++ encodeUInt32 input.sequence

def read (strictness : Strictness) : ReadM Input := do
  let transaction ← readFixed "input.prevout.hash" 32
  let index ← readUInt32 "input.prevout.index"
  let unlockingScript ← readVarBytes strictness "input.script_sig"
  let sequence ← readUInt32 "input.sequence"
  return { prevout := ⟨transaction, index⟩, unlockingScript, sequence }

end Input

namespace Transaction

/-- Memo, class name, data and data signature. -/
def encodeTail (tx : Transaction) : Bytes :=
  encodeOptionalText tx.memo ++ encodeOptionalText tx.dataClassName
    ++ encodeOptionalBytes tx.data ++ encodeOptionalBytes tx.dataSignature

def encode (tx : Transaction) : Bytes :=
  encodeUInt32 tx.version
    ++ encodeCount tx.inputs.length ++ tx.inputs.flatMap Input.encode
    ++ encodeCount tx.outputs.length ++ tx.outputs.flatMap Output.encode
    ++ encodeUInt32 tx.lockTime ++ encodeTail tx

def read (policy : CodecPolicy) : ReadM Transaction := do
  let version ← readUInt32 "tx.version"
  let inputCount ← readCount policy.strictness policy.maximumCount "tx.input_count"
  let inputs ← readMany (Input.read policy.strictness) inputCount
  let outputCount ← readCount policy.strictness policy.maximumCount "tx.output_count"
  let outputs ← readMany (Output.read policy.strictness) outputCount
  let lockTime ← readUInt32 "tx.lock_time"
  let memo ← readOptionalText "tx.memo"
  let dataClassName ← readOptionalText "tx.data_class_name"
  let data ← readOptionalBytes "tx.data"
  let dataSignature ← readOptionalBytes "tx.data_signature"
  return { version, inputs, outputs, lockTime, memo, dataClassName, data, dataSignature }

/-- The transaction at an offset, with the number of bytes it takes. -/
def decodeAt (policy : CodecPolicy) (buffer : Bytes) (offset : Nat) :
    Except DecodeError (Transaction × Nat) :=
  (read policy).decodeAt buffer offset

/-- The transaction that a buffer consists of. -/
def decode (policy : CodecPolicy) (buffer : Bytes) : Except DecodeError Transaction :=
  (read policy).decodeAll "transaction" buffer

/-- The identifier: the double hash of the encoding, tail included. -/
def id (tx : Transaction) : Hash256 := Hash.sha256d tx.encode

end Transaction

end TokenLedger
