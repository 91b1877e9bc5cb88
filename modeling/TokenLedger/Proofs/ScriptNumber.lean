import TokenLedger.Proofs.Number
import TokenLedger.Proofs.Wire.Reading

/-!
# Numbers of scripts

Every byte string is read as a number, and every number is written in one byte string: the one
that no byte could be left out of. So the rule on least forms accepts exactly what is written. Zero
is read from the bytes that stand for it with either sign, and these are the elements that count as
false.
-/

namespace TokenLedger

namespace Number

/-! ### Least forms -/

/-- A byte is what is left without its top bit, and that bit if it is set. -/
theorem signBit_cases (b : UInt8) :
    (b < 0x80 ∧ b &&& 0x7f = b) ∨ (¬ b < 0x80 ∧ (b &&& 0x7f) ||| 0x80 = b) := by
  have every : ∀ b : UInt8,
      (b < 0x80 ∧ b &&& 0x7f = b) ∨ (¬ b < 0x80 ∧ (b &&& 0x7f) ||| 0x80 = b) :=
    forall_byte (by decide +kernel)
  exact every b

theorem clearSign_lt (b : UInt8) : b &&& 0x7f < 0x80 := by
  have every : ∀ b : UInt8, b &&& 0x7f < 0x80 := forall_byte (by decide +kernel)
  exact every b

/-- What is read is the magnitude of the bytes, negated if the sign is set. -/
theorem decodeBE_cons (first : UInt8) (rest : Bytes) :
    decodeBE (first :: rest) =
      if first < 0x80 then (Bytes.ofBigEndian ((first &&& 0x7f) :: rest) : Int)
      else -(Bytes.ofBigEndian ((first &&& 0x7f) :: rest) : Int) := by
  rw [decodeBE]
  obtain ⟨small, same⟩ | ⟨large, -⟩ := signBit_cases first
  · rw [if_pos small, if_pos small, same]
  · rw [if_neg large, if_neg large]

theorem natAbs_decodeBE_cons (first : UInt8) (rest : Bytes) :
    (decodeBE (first :: rest)).natAbs = Bytes.ofBigEndian ((first &&& 0x7f) :: rest) := by
  rw [decodeBE_cons]
  split
  next => exact Int.natAbs_natCast _
  next => rw [Int.natAbs_neg, Int.natAbs_natCast]

/-- A number other than zero is written like an amount, with its sign set. -/
theorem encodeBE_of_ne_zero {n : Int} (nonzero : n ≠ 0) :
    encodeBE n =
      if n < 0 then negated (Amount.encode n.natAbs) else Amount.encode n.natAbs := by
  obtain ⟨b, rest, magnitude, -⟩ := exists_withSignBit (Int.natAbs_pos.mpr nonzero)
  rw [encodeBE, Amount.encode, encodeNat, magnitude]

/-- No byte could be left out of a number other than zero whose magnitude has no zero byte in front
but one that the sign needs. -/
theorem isMinimal_reverse_cons_iff {first : UInt8} {rest : Bytes} :
    ScriptNumber.isMinimal (first :: rest).reverse = true ↔
      Amount.HasNoRedundantZero ((first &&& 0x7f) :: rest) ∧
        Bytes.ofBigEndian ((first &&& 0x7f) :: rest) ≠ 0 := by
  have topBit : ∀ b : UInt8, b &&& 0x80 ≠ 0 ↔ 0x80 ≤ b := forall_byte (by decide +kernel)
  unfold ScriptNumber.isMinimal
  rw [List.reverse_reverse, Ne, Bytes.ofBigEndian_cons_eq_zero_iff]
  cases rest with
  | nil =>
    simp [Amount.hasNoRedundantZero_singleton, Bytes.ofBigEndian, Bytes.ofLittleEndian]
  | cons second rest =>
    have nonzero (large : 0x80 ≤ second) : ¬ Bytes.ofBigEndian (second :: rest) = 0 := by
      rw [Bytes.ofBigEndian_cons_eq_zero_iff]
      rintro ⟨rfl, -⟩
      exact absurd large (by decide)
    rw [Amount.hasNoRedundantZero_cons_cons_iff, Bool.or_eq_true, bne_iff_ne, bne_iff_ne, topBit]
    constructor
    · rintro (digit | large)
      · exact ⟨fun zero => absurd zero digit, fun zeros => digit zeros.1⟩
      · exact ⟨fun _ => large, fun zeros => nonzero large zeros.2⟩
    · rintro ⟨needed, -⟩
      exact (Decidable.em (first &&& 0x7f = 0)).symm.imp_right needed

/-- What is written of a number has no byte that could be left out. -/
theorem isMinimal_encodeBE (n : Int) : ScriptNumber.isMinimal (encodeBE n).reverse = true := by
  by_cases zero : n = 0
  · rw [zero, encodeBE_zero]
    rfl
  have unsigned := Amount.isUnsigned_encode n.natAbs
  have frugal := Amount.hasNoRedundantZero_encode n.natAbs
  have number := Amount.ofBigEndian_encode n.natAbs
  obtain ⟨b, rest, starts⟩ := List.exists_cons_of_ne_nil (Amount.encode_ne_nil n.natAbs)
  rw [encodeBE_of_ne_zero zero]
  rw [starts] at unsigned frugal number ⊢
  have small : b < 0x80 := unsigned b rfl
  have magnitude : Bytes.ofBigEndian (b :: rest) ≠ 0 := by
    rw [number]
    exact Int.natAbs_ne_zero.mpr zero
  by_cases negative : n < 0
  · rw [if_pos negative, negated, isMinimal_reverse_cons_iff, (signBit_of_lt small).2]
    exact ⟨frugal, magnitude⟩
  · obtain ⟨-, same⟩ | ⟨large, -⟩ := signBit_cases b
    · rw [if_neg negative, isMinimal_reverse_cons_iff, same]
      exact ⟨frugal, magnitude⟩
    · exact absurd small large

/-- Bytes that no byte could be left out of are the ones that their number is written in. -/
theorem encodeBE_decodeBE {bytes : Bytes}
    (minimal : ScriptNumber.isMinimal bytes.reverse = true) : encodeBE (decodeBE bytes) = bytes := by
  cases bytes with
  | nil => exact encodeBE_zero
  | cons first rest =>
    obtain ⟨frugal, nonzero⟩ := isMinimal_reverse_cons_iff.mp minimal
    have unsigned : Amount.IsUnsigned ((first &&& 0x7f) :: rest) :=
      Amount.isUnsigned_cons_iff.mpr (clearSign_lt first)
    have magnitude := (Amount.encode_ofBigEndian_eq_iff unsigned).mpr ⟨by simp, frugal⟩
    have number := natAbs_decodeBE_cons first rest
    have other : decodeBE (first :: rest) ≠ 0 := by
      rw [← Int.natAbs_ne_zero, number]
      exact nonzero
    rw [encodeBE_of_ne_zero other, number, magnitude, decodeBE_cons]
    obtain ⟨small, same⟩ | ⟨large, same⟩ := signBit_cases first
    · rw [if_pos small, if_neg (by omega), same]
    · rw [if_neg large, if_pos (by omega), negated, same]

/-- A byte behind the others adds to the magnitude, and leaves the sign. -/
theorem natAbs_decodeBE_concat {bytes : Bytes} (nonempty : bytes ≠ []) (b : UInt8) :
    (decodeBE (bytes ++ [b])).natAbs = 256 * (decodeBE bytes).natAbs + b.toNat := by
  obtain ⟨first, rest, rfl⟩ := List.exists_cons_of_ne_nil nonempty
  rw [List.cons_append, natAbs_decodeBE_cons, natAbs_decodeBE_cons, ← List.cons_append,
    Bytes.ofBigEndian_concat]

/-! ### Behind a length -/

/-- A number that is not too long for its length field is read behind it, whatever follows. -/
theorem decodeWithLength_append {n : Int} (fits : (encodeBE n).length < 2 ^ 32) (rest : Bytes) :
    decodeWithLength (encodeWithLength n ++ rest) = .ok n := by
  have accepts := (readUInt32BE_accepts "mpi.length").bind fun length =>
    (readBytes_accepts "mpi" length.toNat).bind fun body => .pure (decodeBE body)
  have announced : (UInt32.ofNat (encodeBE n).length).toNat = (encodeBE n).length :=
    UInt32.toNat_ofNat_of_lt' fits
  have field : Bytes.bigEndian 4 (UInt32.ofNat (encodeBE n).length).toNat =
      Bytes.bigEndian 4 (encodeBE n).length := by rw [announced]
  have read := (accepts.decodeAt_eq_ok_iff (Nat.zero_le _)).mpr ⟨_, rest,
    ⟨_, UInt32.ofNat (encodeBE n).length, encodeBE n, field, ⟨encodeBE n, encodeBE n, [],
      ⟨rfl, announced.symm⟩, ⟨rfl, (decodeBE_encodeBE n).symm⟩, List.append_nil _⟩, rfl⟩,
    List.drop_zero, rfl⟩
  exact congrArg (Except.map Prod.fst) read

end Number

namespace ScriptNumber

/-- Bytes in least form are read, and they are the ones that the number is written in. -/
theorem decode_true_eq_ok_iff {width : Nat} {bytes : Bytes} {n : Int} :
    decode width true bytes = .ok n ↔ bytes.length ≤ width ∧ bytes = encode n := by
  rw [decode_eq_ok_iff]
  constructor
  · rintro ⟨fits, minimal, rfl⟩
    rw [← List.reverse_reverse bytes] at minimal
    rw [encode, Number.encodeBE_decodeBE (minimal rfl), List.reverse_reverse]
    exact ⟨fits, rfl⟩
  · rintro ⟨fits, rfl⟩
    refine ⟨fits, fun _ => Number.isMinimal_encodeBE n, ?_⟩
    rw [encode, List.reverse_reverse, Number.decodeBE_encodeBE]

/-- Without the rule every byte string that is not too long is read. Its number takes no more
bytes. -/
theorem exists_decode_false {width : Nat} {bytes : Bytes} (fits : bytes.length ≤ width) :
    ∃ n, decode width false bytes = .ok n ∧ (encode n).length ≤ bytes.length := by
  refine ⟨Number.decodeBE bytes.reverse, ?_, ?_⟩
  · exact decode_eq_ok_iff.mpr ⟨fits, by simp, rfl⟩
  · rw [length_encode_le_iff, ← List.length_reverse]
    exact Number.natAbs_decodeBE_lt bytes.reverse

/-- An element is true unless its number is zero. -/
theorem isTrue_iff {bytes : Bytes} : isTrue bytes = true ↔ Number.decodeBE bytes.reverse ≠ 0 := by
  have single : ∀ b : UInt8, (b != 0 && b != 0x80) = true ↔ Number.decodeBE [b] ≠ 0 :=
    forall_byte (by decide +kernel)
  fun_induction isTrue bytes with
  | case1 => simp [Number.decodeBE]
  | case2 last => exact single last
  | case3 b bytes longer ih =>
    have nonempty : bytes.reverse ≠ [] := by simpa using longer
    have digit : b ≠ 0 ↔ b.toNat ≠ 0 := by rw [Ne, Ne, ← UInt8.toNat_inj, UInt8.toNat_zero]
    rw [Bool.or_eq_true, bne_iff_ne, digit, List.reverse_cons, ← Int.natAbs_ne_zero,
      Number.natAbs_decodeBE_concat nonempty]
    refine (or_congr_right ih).trans ?_
    rw [← Int.natAbs_ne_zero]
    omega

/-- A number takes so many bytes if one bit is left for its sign; under the rule on least forms
exactly these bytes are read as the number, and without it all that are not too many. The
multi-precision form of a number is read back with and without its length. An element is true if
its number is not zero, however long it is. -/
theorem codec_is_exact (n : Int) {width : Nat} (positive : 1 ≤ width) (bytes : Bytes) :
    ((encode n).length ≤ width ↔ n.natAbs < 2 ^ (8 * width - 1)) ∧
    (decode width true bytes = .ok n ↔ bytes.length ≤ width ∧ bytes = encode n) ∧
    (bytes.length ≤ width →
      ∃ m, decode width false bytes = .ok m ∧ (encode m).length ≤ bytes.length) ∧
    Number.decodeBE (Number.encodeBE n) = n ∧
    ((Number.encodeBE n).length < 2 ^ 32 →
      Number.decodeWithLength (Number.encodeWithLength n) = .ok n) ∧
    ∃ m, decode bytes.length false bytes = .ok m ∧ (isTrue bytes = true ↔ m ≠ 0) := by
  have bits : 256 ^ width = 2 * 2 ^ (8 * width - 1) := by
    have last : 8 * width = 8 * width - 1 + 1 := by omega
    calc 256 ^ width = 2 ^ (8 * width) := (Nat.pow_mul 2 8 width).symm
      _ = 2 ^ (8 * width - 1 + 1) := by rw [← last]
      _ = 2 * 2 ^ (8 * width - 1) := Nat.pow_succ'
  refine ⟨?_, decode_true_eq_ok_iff, exists_decode_false, Number.decodeBE_encodeBE n, ?_, ?_⟩
  · rw [length_encode_le_iff, bits]
    omega
  · intro fits
    have read := Number.decodeWithLength_append fits []
    rwa [List.append_nil] at read
  · exact ⟨_, decode_eq_ok_iff.mpr ⟨Nat.le_refl _, by simp, rfl⟩, isTrue_iff⟩

/-- A magnitude that leaves no room for the sign in its own byte. -/
theorem codec_is_exact_two_bytes :
    1 ≤ 2 ∧ decode 2 true [0xff, 0x80] = .ok (-255) ∧ encode (-255) = [0xff, 0x80] ∧
      (-255 : Int).natAbs < 2 ^ 15 ∧
      Number.decodeWithLength (Number.encodeWithLength (-255)) = .ok (-255) ∧
      isTrue [0xff, 0x80] = true := by
  have positive : 1 ≤ 2 := by decide
  have read : decode 2 true [0xff, 0x80] = .ok (-255) := rfl
  obtain ⟨width, least, -, -, behindLength, m, unlimited, truth⟩ :=
    codec_is_exact (-255) positive [0xff, 0x80]
  have written : [0xff, 0x80] = encode (-255) := (least.mp read).2
  have fits : (encode (-255)).length ≤ 2 := by rw [← written]; decide
  have short : (Number.encodeBE (-255)).length < 2 ^ 32 := by
    rw [encode, List.length_reverse] at fits
    omega
  have number : (-255 : Int) = m := Except.ok.inj unlimited
  exact ⟨positive, read, written.symm, width.mp fits, behindLength short,
    truth.mpr (by rw [← number]; decide)⟩

/-- Zero with its sign set is false. -/
example : isTrue [0, 0x80] = false ∧ decode 2 false [0, 0x80] = .ok 0 := ⟨rfl, rfl⟩

end ScriptNumber

end TokenLedger
