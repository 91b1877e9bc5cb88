import TokenLedger.Signature.Der

/-!
# Transaction signatures

An ECDSA signature together with the hash type that says what it signs, as scripts carry it.

Embeds `TransactionSignature` with `decode` and `encode`, `is_encoding_canonical` and
`has_defined_hash_type` (`script::signature`).
-/

namespace TokenLedger

structure TransactionSignature where
  ecdsa : Ecdsa.Signature
  hashType : HashType
  deriving DecidableEq

namespace TransactionSignature

def hasStrictLayout (bytes : Bytes) : Bool :=
  match Der.layoutAt bytes with
  | .ok strict => strict
  | .error _ => false

def hasDefinedHashType (bytes : Bytes) : Bool :=
  match bytes.getLast? with
  | none => false
  | some byte => (HashType.mk byte).isDefined

/-- Strict layout with a defined hash type. -/
def isCanonical (bytes : Bytes) : Bool := hasStrictLayout bytes && hasDefinedHashType bytes

/-- The signature in canonical bytes, or in bytes read leniently. -/
def ecdsa? (requireCanonical : Bool) (bytes : Bytes) : Option Ecdsa.Signature :=
  if requireCanonical then
    (Der.strict? bytes).map fun layout => ⟨Der.strictScalar layout.r, Der.strictScalar layout.s⟩
  else Der.lenient? bytes.dropLast

def decode (requireCanonical requireLowS : Bool) (bytes : Bytes) :
    Except Error TransactionSignature :=
  match bytes.getLast? with
  | none => .error (.signatureDecode .empty)
  | some hashType =>
    if requireCanonical && !isCanonical bytes then .error (.signatureDecode .notCanonical)
    else
      match ecdsa? requireCanonical bytes with
      | none => .error (.signatureDecode .malformed)
      | some ecdsa =>
        if requireLowS && !ecdsa.isLowS then .error (.signatureDecode .highS)
        else .ok ⟨ecdsa, ⟨hashType⟩⟩

def encode (signature : TransactionSignature) : Bytes :=
  Der.encode signature.ecdsa ++ [signature.hashType.byte]

end TransactionSignature

end TokenLedger
