import TokenLedger.Ecdsa
import TokenLedger.HashType
import TokenLedger.Number

/-!
# Layouts of signature bytes

Signature bytes are a DER sequence of two integers and, behind it, the hash type. The strict layout
accounts for every byte and writes each integer without sign and in its least width. It is read from
the front, or checked by looking at the positions where its parts have to be. The lenient reading
only looks for two integers in a row.

Embeds `is_valid_signature_encoding` (`script::signature`) as `layoutAt`. The two readers and the
writer stand for `from_der`, `from_der_lax` and `serialize_der` of the package `secp256k1`, which is
not part of the modelled sources. Results rest on what the readers do with integers that are no
scalars: one becomes zero in the strict reader, and both do in the lenient one
(`strictScalar_of_not_lt`, `lenient?_of_not_lt`).
-/

namespace TokenLedger.Der

/-- The parts of signature bytes in strict layout. -/
structure Layout where
  r : Bytes
  s : Bytes
  hashType : HashType
  deriving DecidableEq

/-- An integer with a one-byte length, and the bytes after it. -/
def integer? : Bytes → Option (Bytes × Bytes)
  | 0x02 :: length :: bytes =>
    if length.toNat ≤ bytes.length then some (bytes.splitAt length.toNat) else none
  | _ => none

/-- Neither negative nor written with a zero byte that the sign does not need. -/
def isMinimalInteger : Bytes → Bool
  | [] => false
  | [b] => b < 0x80
  | b :: c :: _ => b < 0x80 && !(b == 0 && c < 0x80)

def strict? (bytes : Bytes) : Option Layout :=
  if bytes.length < 9 ∨ 73 < bytes.length then none
  else
    match bytes with
    | 0x30 :: total :: body => do
      guard (total.toNat + 3 = bytes.length)
      let (r, rest) ← integer? body
      let (s, rest) ← integer? rest
      match rest with
      | [hashType] =>
        guard (isMinimalInteger r && isMinimalInteger s)
        return ⟨r, s, ⟨hashType⟩⟩
      | _ => none
    | _ => none

/-! ### Looking at single positions -/

/-- The byte at a position. A position beyond the end is a fault, and reported. -/
def byteAt (bytes : Bytes) (position : Nat) : Except Nat UInt8 :=
  match bytes[position]? with
  | some byte => .ok byte
  | none => .error position

/-- Whether an integer of so many bytes, whose tag is at a position, is written as the strict layout
has it. Its length is in the byte behind the tag. -/
def integerAt (bytes : Bytes) (position length : Nat) : Except Nat Bool := do
  if (← byteAt bytes position) ≠ 0x02 ∨ length = 0 then return false
  let first ← byteAt bytes (position + 2)
  if 0x80 ≤ first then return false
  if 1 < length ∧ first = 0 then return 0x80 ≤ (← byteAt bytes (position + 3))
  return true

/-- Whether the bytes are in strict layout. The lengths are looked up before anything that stands
where they say, and have to account for all bytes. -/
def layoutAt (bytes : Bytes) : Except Nat Bool := do
  if bytes.length < 9 ∨ 73 < bytes.length then return false
  if (← byteAt bytes 0) ≠ 0x30 then return false
  if (← byteAt bytes 1).toNat + 3 ≠ bytes.length then return false
  let lengthR := (← byteAt bytes 3).toNat
  if bytes.length ≤ 5 + lengthR then return false
  let lengthS := (← byteAt bytes (5 + lengthR)).toNat
  if lengthR + lengthS + 7 ≠ bytes.length then return false
  if !(← integerAt bytes 2 lengthR) then return false
  integerAt bytes (lengthR + 4) lengthS

/-! ### Lenient reading -/

/-- A length in one byte, or in the bytes that the first one counts. -/
def lenientLength? : Bytes → Option (Nat × Bytes)
  | [] => none
  | first :: bytes =>
    if first < 0x80 then some (first.toNat, bytes)
    else
      let count := (first &&& 0x7f).toNat
      if bytes.length < count then none
      else
        let digits := (bytes.take count).dropWhile (· == 0)
        if 8 ≤ digits.length then none else some (Bytes.ofBigEndian digits, bytes.drop count)

def lenientInteger? : Bytes → Option (Bytes × Bytes)
  | 0x02 :: bytes => do
    let (length, bytes) ← lenientLength? bytes
    if length ≤ bytes.length then some (bytes.splitAt length) else none
  | _ => none

/-- The bytes behind the tag and the length of a sequence; what the length says is ignored. -/
def lenientBody? : Bytes → Option Bytes
  | 0x30 :: first :: bytes =>
    if first < 0x80 then some bytes
    else
      let count := (first &&& 0x7f).toNat
      if bytes.length < count then none else some (bytes.drop count)
  | _ => none

/-- The two integers of a sequence. What follows them is ignored. -/
def lenientIntegers? (bytes : Bytes) : Option (Nat × Nat) := do
  let body ← lenientBody? bytes
  let (r, rest) ← lenientInteger? body
  let (s, _) ← lenientInteger? rest
  return (Bytes.ofBigEndian r, Bytes.ofBigEndian s)

/-! ### Signatures -/

open Secp256k1 (Scalar order)

/-- An integer that is no scalar counts as zero. -/
def strictScalar (bytes : Bytes) : Scalar :=
  (Scalar.ofNat? (Bytes.ofBigEndian bytes)).getD .zero

/-- If either integer is no scalar the signature is null. -/
def lenient? (bytes : Bytes) : Option Ecdsa.Signature := do
  let (r, s) ← lenientIntegers? bytes
  match Scalar.ofNat? r, Scalar.ofNat? s with
  | some r, some s => return ⟨r, s⟩
  | _, _ => return .null

theorem strictScalar_of_lt {content : Bytes} (below : Bytes.ofBigEndian content < order) :
    strictScalar content = ⟨Bytes.ofBigEndian content, below⟩ := by
  rw [strictScalar, Scalar.ofNat?, dif_pos below, Option.getD_some]

/-- An integer that overflows becomes zero. -/
theorem strictScalar_of_not_lt {content : Bytes} (outside : ¬ Bytes.ofBigEndian content < order) :
    strictScalar content = .zero := by
  rw [strictScalar, Scalar.ofNat?, dif_neg outside, Option.getD_none]

theorem lenient?_of_lt {bytes : Bytes} {r s : Nat} (found : lenientIntegers? bytes = some (r, s))
    (below : r < order) (below' : s < order) :
    lenient? bytes = some ⟨⟨r, below⟩, ⟨s, below'⟩⟩ := by
  refine Option.bind_eq_some_iff.mpr ⟨_, found, ?_⟩
  simp [Scalar.ofNat?, below, below']

/-- One integer that overflows makes both zero. -/
theorem lenient?_of_not_lt {bytes : Bytes} {r s : Nat}
    (found : lenientIntegers? bytes = some (r, s)) (outside : ¬ (r < order ∧ s < order)) :
    lenient? bytes = some .null := by
  refine Option.bind_eq_some_iff.mpr ⟨_, found, ?_⟩
  by_cases below : r < order
  · have beyond : ¬ s < order := fun below' => outside ⟨below, below'⟩
    simp [Scalar.ofNat?, below, beyond]
  · simp [Scalar.ofNat?, below]

def encodeInteger (n : Nat) : Bytes :=
  let bytes := Number.encodeNat n
  0x02 :: UInt8.ofNat bytes.length :: bytes

def encode (signature : Ecdsa.Signature) : Bytes :=
  let body := encodeInteger signature.r.val ++ encodeInteger signature.s.val
  0x30 :: UInt8.ofNat body.length :: body

end TokenLedger.Der
