import TokenLedger.Proofs.ScriptNumber
import TokenLedger.Proofs.Signature.Decoding

/-!
# Writing signatures and reading them strictly

A signature is written in the strict layout: its numbers in least form take at most 33 bytes each,
so every count fits its byte, and the whole the window that the strict layout is checked for. Read
strictly it is the same signature. Strict bytes whose integers are scalars are in turn the ones that
their signature is written in, so two of them never share a signature.
-/

namespace TokenLedger

open Secp256k1 (order)

/-! ### Widths of least forms -/

/-- An amount takes no more bytes than leave room for its sign. -/
theorem Amount.length_encode_le {value width : Nat} (fits : 2 * value < 256 ^ width)
    (positive : 1 ≤ width) : (Amount.encode value).length ≤ width := by
  rcases Nat.eq_zero_or_pos value with rfl | nonzero
  · rw [Amount.encode_zero]
    exact positive
  · have written : Number.encodeBE (value : Int) = Amount.encode value := by
      rw [Number.encodeBE_of_ne_zero (by omega), if_neg (by omega), Int.natAbs_natCast]
    rw [← written, Number.length_encodeBE_le_iff, Int.natAbs_natCast]
    exact fits

theorem Der.isLeastInteger_encode (value : Nat) : Der.IsLeastInteger (Amount.encode value) :=
  ⟨Amount.encode_ne_nil value, Amount.isUnsigned_encode value,
    Amount.hasNoRedundantZero_encode value⟩

namespace TransactionSignature

variable {bytes : Bytes} {signature : TransactionSignature} {lowS : Bool}

/-! ### The layout of a written signature -/

/-- Both numbers in least form. -/
def layout (signature : TransactionSignature) : Der.Layout :=
  ⟨Amount.encode signature.ecdsa.r.val, Amount.encode signature.ecdsa.s.val, signature.hashType⟩

theorem encode_eq_bytes (signature : TransactionSignature) :
    signature.encode = signature.layout.bytes := by
  have integer (n : Nat) : Der.encodeInteger n =
      0x02 :: UInt8.ofNat (Amount.encode n).length :: Amount.encode n := rfl
  have count (r s : Bytes) : r.length + (s.length + 1 + 1) + 1 + 1 = r.length + s.length + 4 := by
    omega
  rw [encode, Der.encode, Der.Layout.bytes_eq, Der.Layout.sequence]
  simp only [integer, layout, List.length_append, List.length_cons, count, List.cons_append]

theorem length_scalar_le (n : Secp256k1.Scalar) : (Amount.encode n.val).length ≤ 33 :=
  Amount.length_encode_le (by have := n.isLt; unfold order at this; omega) (by decide)

theorem isStrict_layout (signature : TransactionSignature) : signature.layout.IsStrict := by
  have r := length_scalar_le signature.ecdsa.r
  have s := length_scalar_le signature.ecdsa.s
  refine ⟨Der.isLeastInteger_encode _, Der.isLeastInteger_encode _, ?_⟩
  rw [Der.Layout.length_bytes]
  simp only [layout]
  omega

theorem hasScalars_layout (signature : TransactionSignature) : signature.layout.HasScalars := by
  simp [Der.Layout.HasScalars, layout, Amount.ofBigEndian_encode]

theorem ecdsa_layout (signature : TransactionSignature) :
    signature.layout.ecdsa = signature.ecdsa := by
  obtain ⟨r, s⟩ := signature.hasScalars_layout
  rw [Der.Layout.ecdsa, Der.strictScalar_of_lt r, Der.strictScalar_of_lt s]
  simp [layout, Amount.ofBigEndian_encode]

/-! ### Both ways -/

theorem isCanonical_of_decode (decoded : decode true lowS bytes = .ok signature) :
    isCanonical bytes = true := by
  unfold decode at decoded
  split at decoded
  · cases decoded
  · split at decoded
    · cases decoded
    next passes => simpa using passes

/-- A signature that is read strictly is the one that a strict layout stands for. -/
theorem exists_layout_of_decode (decoded : decode true lowS bytes = .ok signature) :
    ∃ layout : Der.Layout, layout.IsStrict ∧ layout.bytes = bytes ∧
      signature = ⟨layout.ecdsa, layout.hashType⟩ := by
  have canonical := isCanonical_of_decode decoded
  obtain ⟨layout, strict, -, rfl⟩ := isCanonical_iff.mp canonical
  rw [decode_bytes_eq (fun _ => canonical) (ecdsa?_true_bytes strict)] at decoded
  split at decoded
  · cases decoded
  · exact ⟨layout, strict, rfl, (Except.ok.inj decoded).symm⟩

/-- A written signature is read leniently as the same one, too. -/
theorem decode_encode_of_low (low : lowS = true → signature.ecdsa.isLowS = true) :
    decode false lowS signature.encode = .ok signature := by
  have read := Der.lenient?_sequence_of_hasScalars signature.isStrict_layout
    signature.hasScalars_layout
  rw [← ecdsa?_false_bytes, ecdsa_layout] at read
  rw [encode_eq_bytes, decode_bytes_eq (by simp) read, if_neg (by simpa using low)]
  rfl

/-- A layout is the one that its signature is written in exactly if its integers are scalars. -/
theorem encode_eq_bytes_iff {layout : Der.Layout} (strict : layout.IsStrict) :
    encode ⟨layout.ecdsa, layout.hashType⟩ = layout.bytes ↔ layout.HasScalars := by
  rw [encode_eq_bytes]
  constructor
  · intro same
    have written := isStrict_layout ⟨layout.ecdsa, layout.hashType⟩
    rw [← Der.Layout.eq_of_bytes_eq written.short same]
    exact hasScalars_layout _
  · rintro ⟨r, s⟩
    have leastR := (Amount.encode_ofBigEndian_eq_iff strict.r.unsigned).mpr
      ⟨strict.r.nonempty, strict.r.frugal⟩
    have leastS := (Amount.encode_ofBigEndian_eq_iff strict.s.unsigned).mpr
      ⟨strict.s.nonempty, strict.s.frugal⟩
    have same : TransactionSignature.layout ⟨layout.ecdsa, layout.hashType⟩ = layout := by
      simp only [TransactionSignature.layout, Der.Layout.ecdsa, Der.strictScalar_of_lt r,
        Der.strictScalar_of_lt s, leastR, leastS]
    rw [same]

/-- A signature with a defined hash type is written in canonical bytes, and strict reading gives it
back unless its second number is asked to be low and is not. Bytes that are read strictly are the
ones that their signature is written in exactly if both integers in them are scalars. -/
theorem strict_codec_is_exact (lowS : Bool) :
    (∀ signature : TransactionSignature, signature.hashType.isDefined = true →
      isCanonical signature.encode = true ∧
      decode true lowS signature.encode =
        if lowS = true ∧ order / 2 < signature.ecdsa.s.val then .error (.signatureDecode .highS)
        else .ok signature) ∧
    ∀ (bytes : Bytes) (signature : TransactionSignature),
      decode true lowS bytes = .ok signature →
        (∃ layout : Der.Layout, layout.bytes = bytes) ∧
        ∀ layout : Der.Layout, layout.bytes = bytes →
          (signature.encode = bytes ↔ layout.HasScalars) := by
  constructor
  · intro signature defined
    have strict := signature.isStrict_layout
    have canonical : isCanonical signature.encode = true :=
      isCanonical_iff.mpr ⟨_, strict, defined, signature.encode_eq_bytes.symm⟩
    refine ⟨canonical, ?_⟩
    rw [encode_eq_bytes] at canonical ⊢
    rw [decode_bytes_eq (fun _ => canonical) (ecdsa?_true_bytes strict), ecdsa_layout]
    have high : (lowS && !signature.ecdsa.isLowS) = true ↔
        lowS = true ∧ order / 2 < signature.ecdsa.s.val := by
      simp [Ecdsa.Signature.isLowS, Secp256k1.Scalar.isLow]
    simp only [high]
    rfl
  · intro bytes signature decoded
    obtain ⟨layout, strict, rfl, rfl⟩ := exists_layout_of_decode decoded
    refine ⟨⟨layout, rfl⟩, fun other parts => ?_⟩
    obtain rfl := Der.Layout.eq_of_bytes_eq strict.short parts.symm
    exact encode_eq_bytes_iff strict

/-- A second number that needs a zero byte for its sign. -/
theorem strict_codec_is_exact_signed :
    let signature : TransactionSignature := ⟨⟨⟨1, by decide⟩, ⟨0x80, by decide⟩⟩, ⟨0x81⟩⟩
    let bytes : Bytes := [0x30, 7, 2, 1, 1, 2, 2, 0, 0x80, 0x81]
    signature.hashType.isDefined = true ∧ decode true true bytes = .ok signature ∧
      isCanonical signature.encode = true ∧
      decode true true signature.encode = .ok signature ∧ signature.encode = bytes := by
  intro signature bytes
  have defined : signature.hashType.isDefined = true := by decide
  have decoded : decode true true bytes = .ok signature := by decide +kernel
  obtain ⟨canonical, read⟩ := (strict_codec_is_exact true).1 signature defined
  rw [if_neg (by decide)] at read
  obtain ⟨-, written⟩ := (strict_codec_is_exact true).2 bytes signature decoded
  have layout := written ⟨[1], [0, 0x80], ⟨0x81⟩⟩ (by decide)
  exact ⟨defined, decoded, canonical, read, layout.mpr ⟨by decide, by decide⟩⟩

end TransactionSignature

end TokenLedger
