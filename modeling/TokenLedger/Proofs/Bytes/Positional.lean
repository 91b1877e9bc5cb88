import Mathlib.Algebra.Ring.Nat
import TokenLedger.Bytes

/-!
# Numbers as byte strings

Writing a number at a fixed width and reading bytes as a number undo each other, as long as the
number fits the width. In as many bytes as needed a number has exactly one form, the one without a
zero byte at its heavy end.
-/

namespace TokenLedger.Bytes

/-! ### Fixed width -/

theorem ofLittleEndian_lt (bytes : Bytes) : ofLittleEndian bytes < 256 ^ bytes.length := by
  induction bytes with
  | nil => decide
  | cons b bytes ih =>
    have small := b.toNat_lt
    simp only [ofLittleEndian, List.length_cons, Nat.pow_succ]
    omega

theorem ofLittleEndian_littleEndian {width value : Nat} (fits : value < 256 ^ width) :
    ofLittleEndian (littleEndian width value) = value := by
  induction width generalizing value with
  | zero =>
    have zero : value = 0 := by simpa using fits
    rw [zero]
    rfl
  | succ width ih =>
    rw [Nat.pow_succ] at fits
    simp only [littleEndian, ofLittleEndian, UInt8.toNat_ofNat']
    rw [ih (Nat.div_lt_of_lt_mul (by omega))]
    omega

theorem littleEndian_ofLittleEndian (bytes : Bytes) :
    littleEndian bytes.length (ofLittleEndian bytes) = bytes := by
  induction bytes with
  | nil => rfl
  | cons b bytes ih =>
    have small := b.toNat_lt
    have digit : UInt8.ofNat (b.toNat + 256 * ofLittleEndian bytes) = b := by
      apply UInt8.toNat_inj.mp
      rw [UInt8.toNat_ofNat']
      omega
    have quotient : (b.toNat + 256 * ofLittleEndian bytes) / 256 = ofLittleEndian bytes := by
      omega
    simp only [List.length_cons, littleEndian, ofLittleEndian, digit, quotient, ih]

theorem littleEndian_eq_iff {width value : Nat} {bytes : Bytes} (fits : value < 256 ^ width) :
    littleEndian width value = bytes ↔ bytes.length = width ∧ ofLittleEndian bytes = value := by
  constructor
  · rintro rfl
    exact ⟨littleEndian_length _ _, ofLittleEndian_littleEndian fits⟩
  · rintro ⟨rfl, rfl⟩
    exact littleEndian_ofLittleEndian bytes

theorem bigEndian_eq_iff {width value : Nat} {bytes : Bytes} (fits : value < 256 ^ width) :
    bigEndian width value = bytes ↔ bytes.length = width ∧ ofBigEndian bytes = value := by
  rw [bigEndian, List.reverse_eq_iff, littleEndian_eq_iff fits, List.length_reverse]
  rfl

/-! ### As many bytes as needed -/

theorem ofLittleEndian_magnitudeLE (value : Nat) : ofLittleEndian (magnitudeLE value) = value := by
  fun_induction magnitudeLE value with
  | case1 => rfl
  | case2 value nonzero ih =>
    simp only [ofLittleEndian, UInt8.toNat_ofNat', ih]
    omega

theorem ofBigEndian_magnitudeBE (value : Nat) : ofBigEndian (magnitudeBE value) = value := by
  simp only [ofBigEndian, magnitudeBE, List.reverse_reverse, ofLittleEndian_magnitudeLE]

theorem magnitudeLE_eq_nil_iff {value : Nat} : magnitudeLE value = [] ↔ value = 0 := by
  unfold magnitudeLE
  split <;> simp [*]

theorem getLast?_magnitudeLE (value : Nat) : (magnitudeLE value).getLast? ≠ some 0 := by
  fun_induction magnitudeLE value with
  | case1 => simp
  | case2 value nonzero ih =>
    rw [List.getLast?_cons]
    cases rest : (magnitudeLE (value / 256)).getLast? with
    | none =>
      have none_left : value / 256 = 0 := magnitudeLE_eq_nil_iff.mp (by simpa using rest)
      intro same
      have digit := congrArg UInt8.toNat (Option.some.inj same)
      simp only [Option.getD_none, UInt8.toNat_ofNat', UInt8.toNat_zero] at digit
      omega
    | some last =>
      rw [rest] at ih
      simpa using ih

/-- Zero bytes at the heavy end are what a number does without. -/
theorem magnitudeLE_ofLittleEndian {bytes : Bytes} (trimmed : bytes.getLast? ≠ some 0) :
    magnitudeLE (ofLittleEndian bytes) = bytes := by
  induction bytes with
  | nil => simp [ofLittleEndian, magnitudeLE]
  | cons b bytes ih =>
    have small := b.toNat_lt
    have tail : bytes.getLast? ≠ some 0 := by
      cases bytes with
      | nil => simp
      | cons => simpa [List.getLast?_cons_cons] using trimmed
    have value_ne : b.toNat + 256 * ofLittleEndian bytes ≠ 0 := by
      intro zero
      have rest : magnitudeLE (ofLittleEndian bytes) = [] :=
        magnitudeLE_eq_nil_iff.mpr (by omega)
      rw [ih tail] at rest
      have digit : b = 0 := UInt8.toNat_inj.mp (by rw [UInt8.toNat_zero]; omega)
      simp [rest, digit] at trimmed
    have head : UInt8.ofNat (b.toNat + 256 * ofLittleEndian bytes) = b := by
      apply UInt8.toNat_inj.mp
      rw [UInt8.toNat_ofNat']
      omega
    have quotient : (b.toNat + 256 * ofLittleEndian bytes) / 256 = ofLittleEndian bytes := by
      omega
    unfold magnitudeLE
    simp only [ofLittleEndian, if_neg value_ne, head, quotient, ih tail]

theorem magnitudeBE_ofBigEndian {bytes : Bytes} (trimmed : bytes.head? ≠ some 0) :
    magnitudeBE (ofBigEndian bytes) = bytes := by
  have reversed : bytes.reverse.getLast? ≠ some 0 := by simpa using trimmed
  simp only [magnitudeBE, ofBigEndian, magnitudeLE_ofLittleEndian reversed, List.reverse_reverse]

theorem head?_magnitudeBE (value : Nat) : (magnitudeBE value).head? ≠ some 0 := by
  simpa [magnitudeBE] using getLast?_magnitudeLE value

theorem ofLittleEndian_append_zero (bytes : Bytes) :
    ofLittleEndian (bytes ++ [0]) = ofLittleEndian bytes := by
  induction bytes with
  | nil => rfl
  | cons b bytes ih => simp only [List.cons_append, ofLittleEndian, ih]

theorem ofBigEndian_zero_cons (bytes : Bytes) : ofBigEndian (0 :: bytes) = ofBigEndian bytes := by
  simp only [ofBigEndian, List.reverse_cons, ofLittleEndian_append_zero]

/-! ### The heaviest byte -/

theorem ofLittleEndian_append (bytes others : Bytes) :
    ofLittleEndian (bytes ++ others) =
      ofLittleEndian bytes + 256 ^ bytes.length * ofLittleEndian others := by
  induction bytes with
  | nil => simp [ofLittleEndian]
  | cons b bytes ih =>
    rw [List.cons_append, ofLittleEndian, ih, ofLittleEndian, List.length_cons, Nat.pow_succ,
      Nat.mul_add, Nat.add_assoc, Nat.mul_comm (256 ^ bytes.length) 256, Nat.mul_assoc]

theorem ofBigEndian_cons (b : UInt8) (bytes : Bytes) :
    ofBigEndian (b :: bytes) = b.toNat * 256 ^ bytes.length + ofBigEndian bytes := by
  rw [ofBigEndian, List.reverse_cons, ofLittleEndian_append, List.length_reverse, Nat.add_comm,
    Nat.mul_comm]
  rfl

theorem ofBigEndian_cons_eq_zero_iff {b : UInt8} {bytes : Bytes} :
    ofBigEndian (b :: bytes) = 0 ↔ b = 0 ∧ ofBigEndian bytes = 0 := by
  rw [ofBigEndian_cons, Nat.add_eq_zero_iff, Nat.mul_eq_zero, ← UInt8.toNat_inj]
  simp

/-- A byte behind the others is the lightest. -/
theorem ofBigEndian_concat (bytes : Bytes) (b : UInt8) :
    ofBigEndian (bytes ++ [b]) = 256 * ofBigEndian bytes + b.toNat := by
  rw [ofBigEndian, List.reverse_append, List.reverse_singleton, List.singleton_append,
    ofLittleEndian, Nat.add_comm]
  rfl

theorem ofBigEndian_lt (bytes : Bytes) : ofBigEndian bytes < 256 ^ bytes.length := by
  have bound := ofLittleEndian_lt bytes.reverse
  rwa [List.length_reverse] at bound

end TokenLedger.Bytes
