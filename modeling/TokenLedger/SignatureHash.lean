import TokenLedger.HashType
import TokenLedger.Script.Edit
import TokenLedger.Transaction.Codec

/-!
# Signature hash

A signature commits to a view of the transaction: the script being satisfied stands in the input
that is signed and all other scripts are left out, and the hash type says which of the inputs,
sequence numbers and outputs are in the view. The digest is the double hash of the view's bytes.

Embeds `hash_for_signature`, `hash_for_signature_script` and `zero_other_sequences` (`sighash`).
-/

namespace TokenLedger

/-- What a signature commits to. An output may be blank: its place counts, its content does not. -/
structure SignedView where
  version : UInt32
  inputs : List Input
  outputs : List (Option Output)
  lockTime : UInt32
  memo : Option String
  dataClassName : Option String
  data : Option Bytes
  dataSignature : Option Bytes
  hashType : HashType
  deriving DecidableEq

namespace SignedView

/-- The inputs of a view that signs the input at `index` with `script` in its place. -/
def signedInputs (inputs : List Input) (index : Nat) (script : Bytes) (hashType : HashType) :
    List Input :=
  let others (input : Input) : Input :=
    { input with
      unlockingScript := []
      sequence := if hashType.mode = .all then input.sequence else 0 }
  let signed (input : Input) : Input := { input with unlockingScript := script }
  let viewed := inputs.mapIdx fun i input => if i = index then signed input else others input
  if hashType.anyoneCanPay then (viewed.drop index).take 1 else viewed

/-- The outputs of a view; none if there is no output for a signature of a single one. -/
def signedOutputs? (outputs : List Output) (index : Nat) (mode : HashMode) :
    Option (List (Option Output)) :=
  match mode with
  | .all => some (outputs.map some)
  | .none => some []
  | .single => outputs[index]?.map fun output => List.replicate index none ++ [some output]

/-- The view of a transaction for the input at `index`, which is to satisfy `script`. Separators
are no part of what is signed. -/
def ofTransaction? (tx : Transaction) (index : Nat) (script : Script) (hashType : HashType) :
    Option SignedView := do
  let outputs ← signedOutputs? tx.outputs index hashType.mode
  return {
    version := tx.version
    inputs := signedInputs tx.inputs index (script.removeCode Opcode.codeSeparator).program hashType
    outputs
    lockTime := tx.lockTime
    memo := tx.memo
    dataClassName := tx.dataClassName
    data := tx.data
    dataSignature := tx.dataSignature
    hashType }

/-- A blank output has the amount -1. -/
def encodeOutput : Option Output → Bytes
  | none => Output.encodeParts [0xff] [] []
  | some output => output.encode

def encode (view : SignedView) : Bytes :=
  encodeUInt32 view.version
    ++ encodeCount view.inputs.length ++ view.inputs.flatMap Input.encode
    ++ encodeCount view.outputs.length ++ view.outputs.flatMap encodeOutput
    ++ encodeUInt32 view.lockTime
    ++ encodeOptionalText view.memo ++ encodeOptionalText view.dataClassName
    ++ encodeOptionalBytes view.data ++ encodeOptionalBytes view.dataSignature
    ++ encodeUInt32 view.hashType.byte.toUInt32

end SignedView

namespace SignatureHash

/-- The digest of a signature of a single output where there is none: the number one. -/
def withoutOutput : Hash256 := ⟨1 :: List.replicate 31 0, by simp⟩

/-- The digest that a signature of the input at `index` has to be of. -/
def digest (tx : Transaction) (index : Nat) (script : Script) (hashType : HashType) :
    Except Error Hash256 :=
  if tx.inputs.length ≤ index then .error (.invalidInputIndex index)
  else
    match SignedView.ofTransaction? tx index script hashType with
    | none => .ok withoutOutput
    | some view => .ok (Hash.sha256d view.encode)

/-- The digest for a script given by its program. -/
def digestOfProgram (tx : Transaction) (index : Nat) (program : Bytes) (hashType : HashType) :
    Except Error Hash256 := do
  digest tx index (← Script.parse program) hashType

end SignatureHash

end TokenLedger
