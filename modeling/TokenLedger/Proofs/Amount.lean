import TokenLedger.Output
import TokenLedger.Proofs.Bytes.Positional

/-!
# Amounts as byte strings

An amount is read from any bytes whose sign is not set. Only one of its byte strings is written:
it is not empty, and starts with a zero byte only if that is all, or keeps the sign clear.
-/

namespace TokenLedger.Amount

/-- The sign is not set. -/
def IsUnsigned (bytes : Bytes) : Prop := ∀ b ∈ bytes.head?, b < 0x80

/-- A first byte that is zero keeps the sign clear. -/
def HasNoRedundantZero (bytes : Bytes) : Prop := ∀ b rest, bytes = 0 :: b :: rest → 0x80 ≤ b

theorem isUnsigned_cons_iff {b : UInt8} {rest : Bytes} : IsUnsigned (b :: rest) ↔ b < 0x80 := by
  simp [IsUnsigned]

theorem hasNoRedundantZero_singleton (b : UInt8) : HasNoRedundantZero [b] := by
  simp [HasNoRedundantZero]

theorem hasNoRedundantZero_cons_cons_iff {b c : UInt8} {rest : Bytes} :
    HasNoRedundantZero (b :: c :: rest) ↔ (b = 0 → 0x80 ≤ c) := by
  simp [HasNoRedundantZero]

theorem decode_eq_ok_iff {offset value : Nat} {bytes : Bytes} :
    decode offset bytes = .ok value ↔ IsUnsigned bytes ∧ Bytes.ofBigEndian bytes = value := by
  cases bytes with
  | nil => simp [decode, IsUnsigned, Bytes.ofBigEndian, Bytes.ofLittleEndian]
  | cons b bytes =>
    by_cases small : b < 0x80 <;> simp [decode, IsUnsigned, small]

/-- The bytes of an amount are those of its magnitude, behind a zero byte where the sign needs
one. -/
theorem encode_of_magnitude {value : Nat} {b : UInt8} {rest : Bytes}
    (magnitude : Bytes.magnitudeBE value = b :: rest) :
    encode value = if b < 0x80 then b :: rest else 0 :: b :: rest := by
  rw [encode, Number.encodeNat, magnitude]
  simp only [Number.withSignBit]
  by_cases small : b < 0x80
  · rw [if_pos small]
  · rw [if_neg small]

theorem encode_zero : encode 0 = [0] := by
  rw [encode, Number.encodeNat, Bytes.magnitudeBE, Bytes.magnitudeLE_eq_nil_iff.mpr rfl]
  rfl

theorem zero_or_magnitude (value : Nat) :
    value = 0 ∨ ∃ b rest, Bytes.magnitudeBE value = b :: rest ∧ b ≠ 0 := by
  have trimmed := Bytes.head?_magnitudeBE value
  have number := Bytes.ofBigEndian_magnitudeBE value
  cases magnitude : Bytes.magnitudeBE value with
  | nil =>
    rw [magnitude] at number
    exact .inl number.symm
  | cons b rest =>
    rw [magnitude] at trimmed
    exact .inr ⟨b, rest, rfl, by simpa using trimmed⟩

theorem ofBigEndian_encode (value : Nat) : Bytes.ofBigEndian (encode value) = value := by
  rcases zero_or_magnitude value with rfl | ⟨b, rest, magnitude, -⟩
  · rw [encode_zero]
    rfl
  · have number := Bytes.ofBigEndian_magnitudeBE value
    rw [magnitude] at number
    rw [encode_of_magnitude magnitude]
    split
    next => exact number
    next => rw [Bytes.ofBigEndian_zero_cons, number]

theorem isUnsigned_encode (value : Nat) : IsUnsigned (encode value) := by
  rcases zero_or_magnitude value with rfl | ⟨b, rest, magnitude, -⟩
  · simp [encode_zero, IsUnsigned]
  · rw [encode_of_magnitude magnitude]
    split
    next small => exact isUnsigned_cons_iff.mpr small
    next => exact isUnsigned_cons_iff.mpr (by decide)

theorem decode_encode (offset value : Nat) : decode offset (encode value) = .ok value :=
  decode_eq_ok_iff.mpr ⟨isUnsigned_encode value, ofBigEndian_encode value⟩

theorem encode_ne_nil (value : Nat) : encode value ≠ [] := by
  rcases zero_or_magnitude value with rfl | ⟨b, rest, magnitude, -⟩
  · simp [encode_zero]
  · rw [encode_of_magnitude magnitude]
    split <;> simp

theorem hasNoRedundantZero_encode (value : Nat) : HasNoRedundantZero (encode value) := by
  intro second others starts
  rcases zero_or_magnitude value with rfl | ⟨b, rest, magnitude, nonzero⟩
  · simp [encode_zero] at starts
  · rw [encode_of_magnitude magnitude] at starts
    split at starts
    next =>
      cases starts
      exact absurd rfl nonzero
    next large =>
      cases starts
      exact UInt8.not_lt.mp large

/-- Which bytes of an amount are the ones that are written. -/
theorem encode_ofBigEndian_eq_iff {bytes : Bytes} (unsigned : IsUnsigned bytes) :
    encode (Bytes.ofBigEndian bytes) = bytes ↔ bytes ≠ [] ∧ HasNoRedundantZero bytes := by
  constructor
  · intro same
    rw [← same]
    exact ⟨encode_ne_nil _, hasNoRedundantZero_encode _⟩
  · rintro ⟨nonempty, frugal⟩
    obtain ⟨b, rest, rfl⟩ := List.exists_cons_of_ne_nil nonempty
    by_cases zero : b = 0
    · subst zero
      rw [Bytes.ofBigEndian_zero_cons]
      cases rest with
      | nil => exact encode_zero
      | cons second rest =>
        have large : 0x80 ≤ second := frugal second rest rfl
        have trimmed : (second :: rest).head? ≠ some 0 := by
          intro same
          obtain rfl : second = 0 := by simpa using same
          exact absurd large (by decide)
        rw [encode_of_magnitude (Bytes.magnitudeBE_ofBigEndian trimmed)]
        exact if_neg (UInt8.not_lt.mpr large)
    · have small : b < 0x80 := unsigned b rfl
      rw [encode_of_magnitude (Bytes.magnitudeBE_ofBigEndian (by simpa using zero))]
      exact if_pos small

/-- Reading an amount and writing it again takes no more bytes, but for the empty string. -/
theorem length_encode_ofBigEndian_le {bytes : Bytes} (unsigned : IsUnsigned bytes) :
    (encode (Bytes.ofBigEndian bytes)).length ≤ max 1 bytes.length := by
  induction bytes with
  | nil =>
    rw [show Bytes.ofBigEndian [] = 0 from rfl, encode_zero]
    decide
  | cons b rest ih =>
    by_cases frugal : HasNoRedundantZero (b :: rest)
    · rw [(encode_ofBigEndian_eq_iff unsigned).mpr ⟨by simp, frugal⟩]
      exact Nat.le_max_right _ _
    · simp only [HasNoRedundantZero, Classical.not_forall] at frugal
      obtain ⟨second, others, starts, small⟩ := frugal
      cases starts
      have tail : IsUnsigned (second :: others) :=
        isUnsigned_cons_iff.mpr (UInt8.not_le.mp small)
      have shorter := ih tail
      rw [Bytes.ofBigEndian_zero_cons]
      simp only [List.length_cons] at shorter ⊢
      omega

end TokenLedger.Amount
