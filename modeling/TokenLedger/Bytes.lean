/-!
# Byte strings

Byte strings are lists of octets; digests and addresses are byte strings whose length is part of
their type. Integers are written at a fixed width, least or most significant byte first, or with as
many bytes as they need.

Embeds the types `Hash` and `ByteString` (`types`).
-/

namespace TokenLedger

abbrev Bytes := List UInt8

/-- A byte string of exactly `n` bytes. -/
abbrev FixedBytes (n : Nat) := { bytes : Bytes // bytes.length = n }

/-- A 256-bit digest. -/
abbrev Hash256 := FixedBytes 32

/-- A 160-bit digest: the hash of a key or of a script. -/
abbrev Hash160 := FixedBytes 20

def FixedBytes.zero (n : Nat) : FixedBytes n := ⟨List.replicate n 0, List.length_replicate⟩

/-- There are so few bytes that a property of all of them can be decided. -/
theorem forall_byte {p : UInt8 → Prop} (every : ∀ n : Fin 256, p (UInt8.ofNat n.val))
    (byte : UInt8) : p byte := by
  have here := every ⟨byte.toNat, byte.toNat_lt⟩
  rwa [UInt8.ofNat_toNat] at here

namespace Bytes

/-! ### Fixed width -/

/-- The `width` low bytes of a number, least significant first. -/
def littleEndian : Nat → Nat → Bytes
  | 0, _ => []
  | width + 1, value => UInt8.ofNat value :: littleEndian width (value / 256)

def bigEndian (width value : Nat) : Bytes := (littleEndian width value).reverse

/-- The number whose bytes these are, least significant first. -/
def ofLittleEndian : Bytes → Nat
  | [] => 0
  | b :: bytes => b.toNat + 256 * ofLittleEndian bytes

def ofBigEndian (bytes : Bytes) : Nat := ofLittleEndian bytes.reverse

@[simp] theorem littleEndian_length (width value : Nat) :
    (littleEndian width value).length = width := by
  induction width generalizing value with
  | zero => rfl
  | succ width ih => simp [littleEndian, ih]

@[simp] theorem bigEndian_length (width value : Nat) :
    (bigEndian width value).length = width := by
  simp [bigEndian]

/-! ### As many bytes as needed -/

/-- The bytes of a number, least significant first and without a leading zero byte. Zero has
none. -/
def magnitudeLE (value : Nat) : Bytes :=
  if value = 0 then [] else UInt8.ofNat value :: magnitudeLE (value / 256)
termination_by value
decreasing_by omega

/-- The bytes of a number, most significant first and without a leading zero byte. -/
def magnitudeBE (value : Nat) : Bytes := (magnitudeLE value).reverse

/-! ### Text -/

def hexDigit (n : UInt8) : Char :=
  if n < 10 then Char.ofNat (48 + n.toNat) else Char.ofNat (87 + n.toNat)

def hexOfByte (b : UInt8) : List Char := [hexDigit (b >>> 4), hexDigit (b &&& 0x0f)]

/-- Two lower-case hexadecimal digits a byte. -/
def toHex (bytes : Bytes) : String := String.ofList (bytes.flatMap hexOfByte)

end Bytes

end TokenLedger
