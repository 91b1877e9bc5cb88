import TokenLedger.Number
import TokenLedger.Wire

/-!
# Outputs

An output locks an amount of a token with a script. On the wire it is three byte strings, each
behind its length: the amount, the identifier of the token and the locking script. The amount is a
signed number whose sign is never set; zero is one zero byte, and the empty string is read as zero.

Embeds `TransactionOutput` (`types`), and `encode_value`, `decode_value`, `write_output`,
`read_output` and `deserialize_output` (`serialization::output`).
-/

namespace TokenLedger

/-- An amount of a token and the script that locks it. -/
structure Output where
  value : Nat
  tokenId : Bytes
  lockingScript : Bytes
  deriving DecidableEq, Repr

namespace Amount

def encode (value : Nat) : Bytes := Number.encodeNat value

/-- Reads an amount whose bytes belong to the field at `offset`. -/
def decode (offset : Nat) : Bytes → Except DecodeError Nat
  | [] => .ok 0
  | b :: bytes =>
    if b < 0x80 then .ok (Bytes.ofBigEndian (b :: bytes))
    else .error (.malformed "output.value" offset .negativeValue)

end Amount

namespace Output

/-- The native token has the empty identifier. -/
def isNative (output : Output) : Bool := output.tokenId.isEmpty

/-- The wire form of an output whose amount is given by its bytes, which may be no amount. -/
def encodeParts (value tokenId lockingScript : Bytes) : Bytes :=
  encodeVarBytes value ++ encodeVarBytes tokenId ++ encodeVarBytes lockingScript

def encode (output : Output) : Bytes :=
  encodeParts (Amount.encode output.value) output.tokenId output.lockingScript

def read (strictness : Strictness) : ReadM Output := do
  let start := (← get).position
  let valueBytes ← readVarBytes strictness "output.value"
  let value ← match Amount.decode start valueBytes with
    | .ok value => pure value
    | .error e => throw e
  let tokenId ← readVarBytes strictness "output.token_id"
  let lockingScript ← readVarBytes strictness "output.script_pubkey"
  return { value, tokenId, lockingScript }

/-- One output at an offset, with the number of bytes it takes. -/
def decodeAt (buffer : Bytes) (offset : Nat) : Except DecodeError (Output × Nat) :=
  (read .lenient).decodeAt buffer offset

end Output

end TokenLedger
