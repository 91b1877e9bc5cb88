import TokenLedger.PublicKey

/-!
# ECDSA

Signatures over secp256k1 and their verification.

Embeds `verify_ecdsa` (`crypto`) and `is_low_s` (`script::signature`). Verification itself stands
for the package `secp256k1`, which is not part of the modelled sources. Results rest on one fact
about it, `verify_of_zero`. What is verified there is first brought to a low second number; here
either of the two is taken as it is, for one is accepted if the other is.
-/

namespace TokenLedger.Ecdsa

open Secp256k1

structure Signature where
  r : Scalar
  s : Scalar
  deriving DecidableEq, Repr

namespace Signature

/-- The signature that verifies for no key. -/
def null : Signature := ⟨.zero, .zero⟩

/-- Negating `s` keeps a signature valid, so only one of the two values is asked of signers. -/
def isLowS (signature : Signature) : Bool := signature.s.isLow

/-- Both numbers in 32 bytes each. -/
def toCompact (signature : Signature) : Bytes :=
  Bytes.bigEndian 32 signature.r.val ++ Bytes.bigEndian 32 signature.s.val

def ofCompact? (bytes : Bytes) : Option Signature := do
  guard (bytes.length = 64)
  let r ← Scalar.ofNat? (Bytes.ofBigEndian (bytes.take 32))
  let s ← Scalar.ofNat? (Bytes.ofBigEndian (bytes.drop 32))
  return ⟨r, s⟩

end Signature

/-- The digest is taken modulo the order of the group. -/
def verify (key : PublicKey) (digest : Hash256) (signature : Signature) : Bool :=
  if signature.r.val = 0 ∨ signature.s.val = 0 then false
  else
    let w := inverse order signature.s.val
    let u₁ := Scalar.ofNat (Bytes.ofBigEndian digest.val * w)
    let u₂ := Scalar.ofNat (signature.r.val * w)
    match (Point.add (Point.generator.scale u₁) (key.toPoint.scale u₂)).x? with
    | none => false
    | some x => x % order == signature.r.val

/-- No signature with a zero is accepted. -/
theorem verify_of_zero {key : PublicKey} {digest : Hash256} {signature : Signature}
    (zero : signature.r.val = 0 ∨ signature.s.val = 0) : verify key digest signature = false := by
  rw [verify, if_pos zero]

end TokenLedger.Ecdsa
