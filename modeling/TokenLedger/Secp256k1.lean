import TokenLedger.Bytes

/-!
# The curve secp256k1

The points of y² = x³ + 7 over a prime field, and their group. Points are kept in projective form,
(x, y, z) standing for (x / z², y / z³), so that adding them takes no division; z is zero at
infinity.

Stands for the package `secp256k1`, which is not part of the modelled sources. No theorem about all
inputs rests on the group: keys are decoded and signatures verified by functions of which only
`Ecdsa.verify_of_zero` is used.
-/

namespace TokenLedger.Secp256k1

/-- The prime of the field of coordinates. -/
def prime : Nat := 0xfffffffffffffffffffffffffffffffffffffffffffffffffffffffefffffc2f

/-- The order of the group. -/
def order : Nat := 0xfffffffffffffffffffffffffffffffebaaedce6af48a03bbfd25e8cd0364141

/-- A number modulo the order of the group. -/
abbrev Scalar := Fin order

namespace Scalar

def zero : Scalar := ⟨0, by decide⟩

def ofNat? (n : Nat) : Option Scalar := if h : n < order then some ⟨n, h⟩ else none

/-- The residue of a number. -/
def ofNat (n : Nat) : Scalar := ⟨n % order, Nat.mod_lt _ (by decide)⟩

/-- At most half the order. -/
def isLow (s : Scalar) : Bool := s.val ≤ order / 2

end Scalar

/-- The bits of a 256-bit number, least significant first. -/
def bits (n : Nat) : List Bool := (List.range 256).map n.testBit

/-- A power modulo `modulus`, the exponent below 2^256. -/
def power (modulus base exponent : Nat) : Nat :=
  (bits exponent).foldr (fun bit acc =>
    let square := acc * acc % modulus
    if bit then square * base % modulus else square) 1

/-- The inverse modulo a prime. Zero has none, and gives zero. -/
def inverse (modulus n : Nat) : Nat := power modulus n (modulus - 2)

/-- The difference modulo the field's prime, of two numbers below it. -/
def minus (a b : Nat) : Nat := (a + prime - b) % prime

structure Point where
  x : Nat
  y : Nat
  z : Nat
  deriving DecidableEq, Repr

namespace Point

def infinity : Point := ⟨1, 1, 0⟩

def affine (x y : Nat) : Point := ⟨x, y, 1⟩

def generator : Point :=
  affine 0x79be667ef9dcbbac55a06295ce870b07029bfcdb2dce28d959f2815b16f81798
    0x483ada7726a3c4655da4fbfc0e1108a8fd17b448a68554199c47d08ffb10d4b8

def double (p : Point) : Point :=
  if p.z = 0 ∨ p.y = 0 then infinity
  else
    let yy := p.y * p.y % prime
    let s := 4 * p.x * yy % prime
    let m := 3 * p.x * p.x % prime
    let x := minus (m * m % prime) (2 * s % prime)
    let y := minus (m * minus s x % prime) (8 * yy * yy % prime)
    ⟨x, y, 2 * p.y * p.z % prime⟩

def add (p q : Point) : Point :=
  if p.z = 0 then q
  else if q.z = 0 then p
  else
    let pz := p.z * p.z % prime
    let qz := q.z * q.z % prime
    let px := p.x * qz % prime
    let qx := q.x * pz % prime
    let py := p.y * qz * q.z % prime
    let qy := q.y * pz * p.z % prime
    if px = qx then
      if py = qy then double p else infinity
    else
      let h := minus qx px
      let r := minus qy py
      let hh := h * h % prime
      let hhh := h * hh % prime
      let v := px * hh % prime
      let x := minus (minus (r * r % prime) hhh) (2 * v % prime)
      let y := minus (r * minus v x % prime) (py * hhh % prime)
      ⟨x, y, h * p.z * q.z % prime⟩

/-- The point added to itself as often as the scalar says. -/
def scale (k : Scalar) (p : Point) : Point :=
  (bits k.val).foldr (fun bit acc =>
    let twice := double acc
    if bit then add twice p else twice) infinity

/-- The first coordinate, at infinity none. -/
def x? (p : Point) : Option Nat :=
  if p.z = 0 then none
  else
    let inv := inverse prime p.z
    some (p.x * inv * inv % prime)

end Point

/-- Both coordinates lie in the field, and the pair on the curve. -/
def OnCurve (x y : Nat) : Prop :=
  x < prime ∧ y < prime ∧ y * y % prime = (x * x * x + 7) % prime

instance (x y : Nat) : Decidable (OnCurve x y) := by
  unfold OnCurve
  infer_instance

/-- The candidate for a square root: a root if there is one, as the prime is 3 modulo 4. -/
def squareRoot (n : Nat) : Nat := power prime n ((prime + 1) / 4)

end TokenLedger.Secp256k1
