import TokenLedger.Secp256k1

/-!
# Public keys

A key is a point of the curve. It is written in 33 bytes, a parity and the first coordinate, or in
65 bytes with both coordinates; the second form may name the parity too.

Embeds `is_valid_pubkey_encoding` (`script::signature`) as `isPlainEncoding`. The rest stands for
the keys of the package `secp256k1`, which is not part of the modelled sources.
-/

namespace TokenLedger

structure PublicKey where
  x : Nat
  y : Nat
  onCurve : Secp256k1.OnCurve x y
  deriving DecidableEq

namespace PublicKey

open Secp256k1

def toPoint (key : PublicKey) : Point := .affine key.x key.y

def ofCoordinates? (x y : Nat) : Option PublicKey :=
  if h : OnCurve x y then some ⟨x, y, h⟩ else none

/-- The key with a first coordinate and the parity of the second. -/
def ofParity? (x : Nat) (odd : Bool) : Option PublicKey :=
  if prime ≤ x then none
  else
    let root := squareRoot ((x * x * x + 7) % prime)
    ofCoordinates? x (if (root % 2 == 1) == odd then root else prime - root)

def decode? (bytes : Bytes) : Option PublicKey :=
  match bytes with
  | [] => none
  | form :: coordinates =>
    let x := Bytes.ofBigEndian (coordinates.take 32)
    let y := Bytes.ofBigEndian (coordinates.drop 32)
    if coordinates.length = 32 then
      if form = 0x02 then ofParity? x false
      else if form = 0x03 then ofParity? x true
      else none
    else if coordinates.length = 64 then
      if form = 0x04 then ofCoordinates? x y
      else if form = 0x06 ∧ y % 2 = 0 ∨ form = 0x07 ∧ y % 2 = 1 then ofCoordinates? x y
      else none
    else none

/-- The length and first byte of a form that names either the parity or both coordinates, not both.
The point itself is not looked at. -/
def isPlainEncoding (bytes : Bytes) : Bool :=
  match bytes with
  | [] => false
  | form :: coordinates =>
    (coordinates.length == 32 && (form == 0x02 || form == 0x03)) ||
      (coordinates.length == 64 && form == 0x04)

end PublicKey

end TokenLedger
