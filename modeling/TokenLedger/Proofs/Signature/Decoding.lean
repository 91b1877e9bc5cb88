import TokenLedger.Proofs.Signature.StrictLayout

/-!
# Reading canonical signatures strictly and leniently

In bytes of the strict layout every length is short, so the lenient reader finds the same two
integers as the strict one. They part only over integers that are no scalars: the strict reader
replaces such an integer alone, the lenient one gives up the whole signature. Either way one of the
two numbers is zero, and no signature with a zero is accepted, so whether a canonical signature is
one of some key does not depend on how it is read.
-/

namespace TokenLedger

namespace Der

open Secp256k1 (Scalar order)

variable {layout : Layout}

/-! ### What the lenient reader finds -/

/-- The bytes in front of the hash type. -/
def Layout.sequence (layout : Layout) : Bytes :=
  0x30 :: UInt8.ofNat (layout.r.length + layout.s.length + 4) ::
    0x02 :: UInt8.ofNat layout.r.length :: (layout.r ++
      0x02 :: UInt8.ofNat layout.s.length :: layout.s)

theorem Layout.bytes_eq (layout : Layout) :
    layout.bytes = layout.sequence ++ [layout.hashType.byte] := by
  simp [Layout.bytes, Layout.sequence]

/-- A length below 128 is its own byte. -/
theorem lenientInteger?_of_short {length : UInt8} {content : Bytes} (rest : Bytes)
    (short : length < 0x80) (counted : length.toNat = content.length) :
    lenientInteger? (0x02 :: length :: (content ++ rest)) = some (content, rest) := by
  have sized : lenientLength? (length :: (content ++ rest)) =
      some (content.length, content ++ rest) := by
    rw [lenientLength?, if_pos short, counted]
  refine Option.bind_eq_some_iff.mpr ⟨_, sized, ?_⟩
  simp

theorem lenientIntegers?_sequence (strict : layout.IsStrict) :
    lenientIntegers? layout.sequence =
      some (Bytes.ofBigEndian layout.r, Bytes.ofBigEndian layout.s) := by
  obtain ⟨whole, countR, countS⟩ := Layout.counts_of_short strict.short
  have few := strict.short
  rw [layout.length_bytes] at few
  have short {count : UInt8} (small : count.toNat ≤ 70) : count < 0x80 := by
    rw [UInt8.lt_iff_toNat_lt]
    exact Nat.lt_of_le_of_lt small (by decide)
  have body : lenientBody? layout.sequence =
      some (0x02 :: UInt8.ofNat layout.r.length :: (layout.r ++
        0x02 :: UInt8.ofNat layout.s.length :: layout.s)) := by
    rw [Layout.sequence, lenientBody?, if_pos (short (by omega))]
  have r := lenientInteger?_of_short (0x02 :: UInt8.ofNat layout.s.length :: layout.s)
    (short (by omega)) countR
  have s := lenientInteger?_of_short [] (short (by omega)) countS
  rw [List.append_nil] at s
  exact Option.bind_eq_some_iff.mpr ⟨_, body, Option.bind_eq_some_iff.mpr ⟨_, r,
    Option.bind_eq_some_iff.mpr ⟨_, s, rfl⟩⟩⟩

/-! ### Integers as scalars -/

/-- Both integers are below the order of the group. -/
def Layout.HasScalars (layout : Layout) : Prop :=
  Bytes.ofBigEndian layout.r < order ∧ Bytes.ofBigEndian layout.s < order

/-- The signature that the strict reader takes a layout for. -/
def Layout.ecdsa (layout : Layout) : Ecdsa.Signature :=
  ⟨strictScalar layout.r, strictScalar layout.s⟩

/-- The lenient reader takes two scalars for the same signature. -/
theorem lenient?_sequence_of_hasScalars (strict : layout.IsStrict) (scalars : layout.HasScalars) :
    lenient? layout.sequence = some layout.ecdsa := by
  rw [lenient?_of_lt (lenientIntegers?_sequence strict) scalars.1 scalars.2, Layout.ecdsa,
    strictScalar_of_lt scalars.1, strictScalar_of_lt scalars.2]

theorem lenient?_sequence_of_not_hasScalars (strict : layout.IsStrict)
    (outside : ¬ layout.HasScalars) : lenient? layout.sequence = some .null :=
  lenient?_of_not_lt (lenientIntegers?_sequence strict) outside

/-- An integer that is no scalar leaves a zero in the signature. -/
theorem Layout.ecdsa_zero_of_not_hasScalars (outside : ¬ layout.HasScalars) :
    layout.ecdsa.r.val = 0 ∨ layout.ecdsa.s.val = 0 := by
  by_cases r : Bytes.ofBigEndian layout.r < order
  · have s : ¬ Bytes.ofBigEndian layout.s < order := fun s => outside ⟨r, s⟩
    exact .inr (by rw [Layout.ecdsa, strictScalar_of_not_lt s, Scalar.zero])
  · exact .inl (by rw [Layout.ecdsa, strictScalar_of_not_lt r, Scalar.zero])

end Der

namespace TransactionSignature

variable {bytes : Bytes} {layout : Der.Layout} {canonical lowS : Bool} {ecdsa : Ecdsa.Signature}

/-- Canonical bytes are a strict layout whose hash type is defined. -/
theorem isCanonical_iff :
    isCanonical bytes = true ↔
      ∃ layout : Der.Layout, layout.IsStrict ∧ layout.hashType.isDefined = true ∧
        layout.bytes = bytes := by
  have hashType (layout : Der.Layout) :
      hasDefinedHashType layout.bytes = layout.hashType.isDefined := by
    rw [hasDefinedHashType, layout.bytes_eq, List.getLast?_concat]
  rw [isCanonical, Bool.and_eq_true, hasStrictLayout_iff]
  constructor
  · rintro ⟨⟨layout, strict, rfl⟩, defined⟩
    exact ⟨layout, strict, hashType layout ▸ defined, rfl⟩
  · rintro ⟨layout, strict, defined, rfl⟩
    exact ⟨⟨layout, strict, rfl⟩, (hashType layout).trans defined⟩

theorem ecdsa?_true_bytes (strict : layout.IsStrict) :
    ecdsa? true layout.bytes = some layout.ecdsa := by
  rw [ecdsa?, if_pos rfl, Der.strict?_bytes strict]
  rfl

theorem ecdsa?_false_bytes (layout : Der.Layout) :
    ecdsa? false layout.bytes = Der.lenient? layout.sequence := by
  rw [ecdsa?, if_neg Bool.false_ne_true, layout.bytes_eq, List.dropLast_concat]

/-- Once a signature is read, only the size of its second number can stand in the way. -/
theorem decode_bytes_eq (allowed : canonical = true → isCanonical layout.bytes = true)
    (read : ecdsa? canonical layout.bytes = some ecdsa) :
    decode canonical lowS layout.bytes =
      if lowS && !ecdsa.isLowS then .error (.signatureDecode .highS)
      else .ok ⟨ecdsa, layout.hashType⟩ := by
  have last : layout.bytes.getLast? = some layout.hashType.byte := by
    rw [layout.bytes_eq, List.getLast?_concat]
  have passes : ¬ (canonical && !isCanonical layout.bytes) = true := by simpa using allowed
  simp only [decode, last, if_neg passes, read]

theorem exists_verified_iff {key : PublicKey} {digest : Hash256}
    (allowed : canonical = true → isCanonical layout.bytes = true)
    (read : ecdsa? canonical layout.bytes = some ecdsa) :
    (∃ signature, decode canonical lowS layout.bytes = .ok signature ∧
        Ecdsa.verify key digest signature.ecdsa = true) ↔
      (lowS && !ecdsa.isLowS) = false ∧ Ecdsa.verify key digest ecdsa = true := by
  rw [decode_bytes_eq allowed read]
  cases lowS && !ecdsa.isLowS <;> simp

/-- Canonical bytes are read strictly and leniently with the same verdict: the signature that one of
the readings gives is accepted for a key exactly if the other is. They are the same signature, or
fail alike, if the two integers in the bytes are scalars. -/
theorem canonical_readings_agree (canonicalBytes : isCanonical bytes = true) (lowS : Bool) :
    (∀ (key : PublicKey) (digest : Hash256),
      (∃ signature, decode true lowS bytes = .ok signature ∧
          Ecdsa.verify key digest signature.ecdsa = true) ↔
        ∃ signature, decode false lowS bytes = .ok signature ∧
          Ecdsa.verify key digest signature.ecdsa = true) ∧
    (∃ layout : Der.Layout, layout.bytes = bytes) ∧
    ∀ layout : Der.Layout, layout.bytes = bytes → layout.HasScalars →
      decode true lowS bytes = decode false lowS bytes := by
  obtain ⟨layout, strict, -, rfl⟩ := isCanonical_iff.mp canonicalBytes
  have strictly := ecdsa?_true_bytes strict
  have same (scalars : layout.HasScalars) :
      decode true lowS layout.bytes = decode false lowS layout.bytes := by
    have leniently := Der.lenient?_sequence_of_hasScalars strict scalars
    rw [← ecdsa?_false_bytes] at leniently
    rw [decode_bytes_eq (fun _ => canonicalBytes) strictly, decode_bytes_eq (by simp) leniently]
  refine ⟨fun key digest => ?_, ⟨layout, rfl⟩, fun other parts scalars => ?_⟩
  · by_cases scalars : layout.HasScalars
    · rw [same scalars]
    · have leniently := Der.lenient?_sequence_of_not_hasScalars strict scalars
      rw [← ecdsa?_false_bytes] at leniently
      have refused : Ecdsa.verify key digest layout.ecdsa = false :=
        Ecdsa.verify_of_zero (Der.Layout.ecdsa_zero_of_not_hasScalars scalars)
      have refusedNull : Ecdsa.verify key digest .null = false := Ecdsa.verify_of_zero (.inl rfl)
      rw [exists_verified_iff (fun _ => canonicalBytes) strictly,
        exists_verified_iff (by simp) leniently, refused, refusedNull]
      simp
  · obtain rfl := Der.Layout.eq_of_bytes_eq strict.short parts.symm
    exact same scalars

/-- Bytes whose first integer is 32 bytes of ones, behind the zero byte that it needs. -/
def tooLargeFirst : Bytes :=
  [0x30, 38, 2, 33, 0] ++ List.replicate 32 0xff ++ [2, 1, 1, 1]

/-- The readings of an integer that is no scalar are different, and neither is accepted. -/
theorem canonical_readings_agree_tooLargeFirst :
    isCanonical tooLargeFirst = true ∧
      decode true false tooLargeFirst = .ok ⟨⟨.zero, ⟨1, by decide⟩⟩, ⟨1⟩⟩ ∧
      decode false false tooLargeFirst = .ok ⟨.null, ⟨1⟩⟩ ∧
      ∀ (key : PublicKey) (digest : Hash256),
        (∃ signature, decode true false tooLargeFirst = .ok signature ∧
            Ecdsa.verify key digest signature.ecdsa = true) ↔
          ∃ signature, decode false false tooLargeFirst = .ok signature ∧
            Ecdsa.verify key digest signature.ecdsa = true := by
  have canonicalBytes : isCanonical tooLargeFirst = true := by decide +kernel
  exact ⟨canonicalBytes, by decide +kernel, by decide +kernel,
    (canonical_readings_agree canonicalBytes false).1⟩

end TransactionSignature

end TokenLedger
