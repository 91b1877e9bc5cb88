import TokenLedger.Number
import TokenLedger.Proofs.Amount

/-!
# Signed numbers as byte strings

A signed number takes so many bytes exactly when its double is below what so many bytes can hold:
the one bit that is missing is the sign. Reading a number undoes writing it, and what is written is
minimal.
-/

namespace TokenLedger

namespace Number

/-- The magnitude of a number other than zero: the sign is left clear, and with one bit less than
it has the number would not fit. -/
theorem exists_withSignBit {value : Nat} (pos : 0 < value) :
    ∃ b rest, withSignBit (Bytes.magnitudeBE value) = b :: rest ∧ b < 0x80 ∧
      Bytes.ofBigEndian (b :: rest) = value ∧ 256 ^ rest.length ≤ 2 * value := by
  obtain rfl | ⟨b, rest, magnitude, nonzero⟩ := Amount.zero_or_magnitude value
  · omega
  have number : Bytes.ofBigEndian (b :: rest) = value := by
    rw [← magnitude, Bytes.ofBigEndian_magnitudeBE]
  have split := Bytes.ofBigEndian_cons b rest
  have positive : 0 < 256 ^ rest.length := Nat.pow_pos (by decide)
  rw [magnitude]
  simp only [withSignBit]
  by_cases small : b < 0x80
  · rw [if_pos small]
    have digit : 1 ≤ b.toNat := Nat.one_le_iff_ne_zero.mpr fun zero =>
      nonzero (UInt8.toNat_inj.mp zero)
    have heavy : 1 * 256 ^ rest.length ≤ b.toNat * 256 ^ rest.length :=
      Nat.mul_le_mul_right _ digit
    exact ⟨b, rest, rfl, small, number, by omega⟩
  · rw [if_neg small]
    have digit : 128 ≤ b.toNat := UInt8.le_iff_toNat_le.mp (UInt8.not_lt.mp small)
    have heavy : 128 * 256 ^ rest.length ≤ b.toNat * 256 ^ rest.length :=
      Nat.mul_le_mul_right _ digit
    refine ⟨0, b :: rest, rfl, by decide, by rw [Bytes.ofBigEndian_zero_cons, number], ?_⟩
    rw [List.length_cons, Nat.pow_succ]
    omega

/-- A byte with its top bit set and cleared again. -/
theorem signBit_of_lt {b : UInt8} (small : b < 0x80) :
    ¬ b ||| 0x80 < 0x80 ∧ (b ||| 0x80) &&& 0x7f = b := by
  have every : ∀ b : UInt8, b < 0x80 → ¬ b ||| 0x80 < 0x80 ∧ (b ||| 0x80) &&& 0x7f = b :=
    forall_byte (by decide +kernel)
  exact every b small

theorem encodeBE_zero : encodeBE 0 = [] := by
  simp [encodeBE, Bytes.magnitudeBE, Bytes.magnitudeLE, withSignBit]

/-- A number other than zero is its magnitude with the sign in the first byte. -/
theorem exists_encodeBE {n : Int} (nonzero : n ≠ 0) :
    ∃ b rest, b < 0x80 ∧ encodeBE n = (if n < 0 then b ||| 0x80 else b) :: rest ∧
      Bytes.ofBigEndian (b :: rest) = n.natAbs ∧ 256 ^ rest.length ≤ 2 * n.natAbs := by
  obtain ⟨b, rest, magnitude, small, number, tight⟩ :=
    exists_withSignBit (Int.natAbs_pos.mpr nonzero)
  refine ⟨b, rest, small, ?_, number, tight⟩
  rw [encodeBE, magnitude]
  by_cases negative : n < 0
  · simp only [if_pos negative, negated]
  · simp only [if_neg negative]

theorem decodeBE_encodeBE (n : Int) : decodeBE (encodeBE n) = n := by
  by_cases zero : n = 0
  · rw [zero, encodeBE_zero]
    rfl
  obtain ⟨b, rest, small, encoded, number, -⟩ := exists_encodeBE zero
  obtain ⟨signed, restored⟩ := signBit_of_lt small
  rw [encoded]
  by_cases negative : n < 0
  · rw [if_pos negative, decodeBE, if_neg signed, restored, number]
    omega
  · rw [if_neg negative, decodeBE, if_pos small, number]
    omega

/-- What is read from bytes leaves room for the sign. -/
theorem natAbs_decodeBE_lt (bytes : Bytes) : 2 * (decodeBE bytes).natAbs < 256 ^ bytes.length := by
  have clear (b : UInt8) (rest : Bytes) (small : b.toNat < 128) :
      2 * Bytes.ofBigEndian (b :: rest) < 256 ^ (rest.length + 1) := by
    have light := Bytes.ofBigEndian_lt rest
    have heavy : b.toNat * 256 ^ rest.length ≤ 127 * 256 ^ rest.length :=
      Nat.mul_le_mul_right _ (by omega)
    rw [Bytes.ofBigEndian_cons, Nat.pow_succ]
    omega
  cases bytes with
  | nil => decide
  | cons b rest =>
    rw [decodeBE, List.length_cons]
    split
    next small => exact clear b rest (UInt8.lt_iff_toNat_lt.mp small)
    next =>
      have masked : (b &&& 0x7f).toNat < 128 := by
        rw [UInt8.toNat_and]
        exact Nat.lt_of_le_of_lt Nat.and_le_right (by decide)
      rw [Int.natAbs_neg]
      exact clear _ rest masked

/-- A number fits so many bytes if one bit is left for its sign. -/
theorem length_encodeBE_le_iff {n : Int} {width : Nat} :
    (encodeBE n).length ≤ width ↔ 2 * n.natAbs < 256 ^ width := by
  have read := natAbs_decodeBE_lt (encodeBE n)
  rw [decodeBE_encodeBE] at read
  constructor
  · intro fits
    exact Nat.lt_of_lt_of_le read (Nat.pow_le_pow_right (by decide) fits)
  · intro small
    by_cases zero : n = 0
    · rw [zero, encodeBE_zero]
      exact Nat.zero_le _
    obtain ⟨b, rest, -, encoded, -, tight⟩ := exists_encodeBE zero
    have shorter : rest.length < width :=
      (Nat.pow_lt_pow_iff_right (by decide)).mp (Nat.lt_of_le_of_lt tight small)
    rw [encoded, List.length_cons]
    exact shorter

end Number

namespace ScriptNumber

theorem length_encode_le_iff {n : Int} {width : Nat} :
    (encode n).length ≤ width ↔ 2 * n.natAbs < 256 ^ width := by
  rw [encode, List.length_reverse]
  exact Number.length_encodeBE_le_iff

/-- Numbers of eight bytes take one more at most. -/
theorem length_encode_toInt_le (n : Int64) : (encode n.toInt).length ≤ 9 := by
  have lower := n.le_toInt
  have upper := n.toInt_lt
  rw [length_encode_le_iff]
  omega

/-- Bytes are read as their number if there are not too many of them, and, where that is asked for,
none that could be left out. -/
theorem decode_eq_ok_iff {width : Nat} {minimal : Bool} {bytes : Bytes} {n : Int} :
    decode width minimal bytes = .ok n ↔
      bytes.length ≤ width ∧ (minimal = true → isMinimal bytes = true) ∧
        n = Number.decodeBE bytes.reverse := by
  unfold decode
  by_cases wide : width < bytes.length
  · rw [if_pos wide]
    simp [Nat.not_le.mpr wide]
  · rw [if_neg wide]
    cases minimal <;> cases isMinimal bytes <;> simp [Nat.not_lt.mp wide, eq_comm]

/-- What is read from at most so many bytes. -/
theorem natAbs_lt_of_decode {width : Nat} {minimal : Bool} {bytes : Bytes} {n : Int}
    (decoded : decode width minimal bytes = .ok n) : 2 * n.natAbs < 256 ^ width := by
  obtain ⟨fits, -, rfl⟩ := decode_eq_ok_iff.mp decoded
  have read := Number.natAbs_decodeBE_lt bytes.reverse
  rw [List.length_reverse] at read
  exact Nat.lt_of_lt_of_le read (Nat.pow_le_pow_right (by decide) fits)

/-- A number that is written is read again wherever it fits, unless its form is looked at. -/
theorem decode_encode_eq_ok_iff {n m : Int} {width : Nat} :
    decode width false (encode n) = .ok m ↔ 2 * n.natAbs < 256 ^ width ∧ m = n := by
  have number : Number.decodeBE (encode n).reverse = n := by
    rw [encode, List.reverse_reverse, Number.decodeBE_encodeBE]
  rw [decode_eq_ok_iff, length_encode_le_iff, number]
  simp

end ScriptNumber

end TokenLedger
