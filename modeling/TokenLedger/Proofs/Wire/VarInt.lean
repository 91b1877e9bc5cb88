import TokenLedger.Proofs.Wire.Reading

/-!
# Forms of compact integers

A value has a form in every width that it fits. The decoder reads each of them, whatever comes
behind; a strict one reads the least only, which is the one that is written.
-/

namespace TokenLedger

/-- The field that a failure is about. A slice out of range is of no field. -/
def DecodeError.field : DecodeError → String
  | malformed field .. | truncated field .. => field
  | outOfRange .. => ""

namespace VarInt

/-- The first byte of a form of more than one byte. -/
def marker (width : Nat) : UInt8 :=
  if width = 3 then 0xfd else if width = 5 then 0xfe else 0xff

/-- The bytes of a value in the width that it was read in. -/
def bytes (v : VarInt) : Bytes :=
  if v.width = 1 then [v.value.toUInt8]
  else marker v.width :: Bytes.littleEndian (v.width - 1) v.value.toNat

/-- The value fits the width, and the width is one of the four. -/
def IsForm (v : VarInt) : Prop :=
  v.width = 1 ∧ v.value < 0xfd ∨
    (v.width = 3 ∨ v.width = 5 ∨ v.width = 9) ∧ v.value.toNat < 256 ^ (v.width - 1)

theorem length_bytes {v : VarInt} (form : v.IsForm) : v.bytes.length = v.width := by
  unfold bytes
  split
  next one => simp [one]
  next wide =>
    rw [List.length_cons, Bytes.littleEndian_length]
    rcases form with ⟨one, _⟩ | ⟨_, _⟩ <;> omega

theorem announced_of_lt {b : UInt8} (small : b < 0xfd) : announced b = 0 := by
  unfold announced
  rw [if_neg, if_neg, if_neg] <;> (rintro rfl; contradiction)

theorem announced_marker {width : Nat} (wide : width = 3 ∨ width = 5 ∨ width = 9) :
    announced (marker width) = width - 1 := by
  rcases wide with rfl | rfl | rfl <;> rfl

/-- A first byte is the value itself, or the marker of the width it announces. -/
theorem lt_or_eq_marker (b : UInt8) :
    announced b = 0 ∧ b < 0xfd ∨
      (announced b = 2 ∨ announced b = 4 ∨ announced b = 8) ∧ marker (1 + announced b) = b := by
  unfold announced
  split
  next here => simp [here, marker]
  split
  next here => simp [here, marker]
  split
  next here => simp [here, marker]
  next notFd notFe notFf =>
    refine .inl ⟨rfl, UInt8.lt_iff_toNat_lt.mpr ?_⟩
    have bound := b.toNat_lt
    rw [← UInt8.toNat_inj] at notFd notFe notFf
    simp only [UInt8.reduceToNat] at notFd notFe notFf ⊢
    omega

theorem size_of_lt {value : UInt64} (small : value < 0xfd) : size value = 1 := by
  unfold size
  rw [if_pos small]

theorem toUInt64_lt {b : UInt8} (small : b < 0xfd) : b.toUInt64 < 0xfd := by
  rw [UInt64.lt_iff_toNat_lt]
  exact UInt8.lt_iff_toNat_lt.mp small

theorem toUInt8_lt {value : UInt64} (small : value < 0xfd) : value.toUInt8 < 0xfd := by
  rw [UInt64.lt_iff_toNat_lt] at small
  rw [UInt8.lt_iff_toNat_lt, UInt64.toNat_toUInt8]
  exact Nat.lt_of_le_of_lt (Nat.mod_le _ _) small

theorem toUInt64_toUInt8 {value : UInt64} (small : value < 0xfd) :
    value.toUInt8.toUInt64 = value := by
  rw [UInt64.lt_iff_toNat_lt] at small
  apply UInt64.toNat_inj.mp
  rw [UInt8.toNat_toUInt64, UInt64.toNat_toUInt8]
  simp only [UInt64.reduceToNat] at small
  omega

variable {field : String} {offset : Nat} {strictness : Strictness} {v : VarInt}

/-- What is read stands there in its form. -/
theorem form_of_decode {stream : Bytes} (decoded : decode field offset strictness stream = .ok v) :
    v.IsForm ∧ (strictness = .strict → v.isCanonical = true) ∧
      ∃ rest, stream = v.bytes ++ rest := by
  cases stream with
  | nil => cases decoded
  | cons b payload =>
    simp only [decode] at decoded
    rcases lt_or_eq_marker b with ⟨none_follow, small⟩ | ⟨wide, marks⟩
    · rw [if_pos none_follow] at decoded
      cases decoded
      refine ⟨.inl ⟨rfl, toUInt64_lt small⟩, fun _ => ?_, payload, ?_⟩
      · simp [isCanonical, size_of_lt (toUInt64_lt small)]
      · simp [bytes]
    · rw [if_neg (by omega)] at decoded
      split at decoded
      next => cases decoded
      next enough =>
        split at decoded
        next => cases decoded
        next allowed =>
          cases decoded
          have width : (payload.take (announced b)).length = announced b := by
            rw [List.length_take]
            omega
          have small := Bytes.ofLittleEndian_lt (payload.take (announced b))
          rw [width] at small
          have fits : 256 ^ announced b ≤ 256 ^ 8 := Nat.pow_le_pow_right (by omega) (by omega)
          have value := UInt64.toNat_ofNat_of_lt' (Nat.lt_of_lt_of_le small fits)
          refine ⟨.inr ⟨?_, ?_⟩, ?_, payload.drop (announced b), ?_⟩
          · simp only
            omega
          · rw [value]
            simpa using small
          · intro strict
            simpa [strict] using allowed
          · have written := Bytes.littleEndian_ofLittleEndian (payload.take (announced b))
            rw [width] at written
            simp only [bytes]
            rw [if_neg (by omega), value, marks, Nat.add_sub_cancel_left, written,
              List.cons_append, List.take_append_drop]

theorem decode_of_form (form : v.IsForm) (canonical : strictness = .strict → v.isCanonical = true)
    (rest : Bytes) : decode field offset strictness (v.bytes ++ rest) = .ok v := by
  obtain ⟨value, width⟩ := v
  rcases form with ⟨rfl, small⟩ | ⟨wide, fits⟩
  · simp only [bytes, decode, List.cons_append, if_true, announced_of_lt (toUInt8_lt small),
      toUInt64_toUInt8 small]
  · simp only at wide fits
    have notOne : width ≠ 1 := by omega
    have written := Bytes.littleEndian_length (width - 1) value.toNat
    simp only [bytes, if_neg notOne, decode, List.cons_append, announced_marker wide]
    rw [if_neg (by omega), if_neg (by rw [List.length_append, written]; omega),
      List.take_left' written, Bytes.ofLittleEndian_littleEndian fits, UInt64.ofNat_toNat,
      show 1 + (width - 1) = width by omega, if_neg]
    rintro ⟨strict, wasteful⟩
    exact wasteful (canonical strict)

theorem selfDelimiting : SelfDelimiting IsForm bytes := by
  intro a b formA formB r s same
  have first : decode "" 0 .lenient (a.bytes ++ r) = .ok a := decode_of_form formA (by simp) r
  have second : decode "" 0 .lenient (b.bytes ++ s) = .ok b := decode_of_form formB (by simp) s
  rw [same] at first
  obtain rfl : b = a := Except.ok.inj (second.symm.trans first)
  exact ⟨rfl, List.append_cancel_left same⟩

theorem decode_names_field {stream : Bytes} {e : DecodeError}
    (failed : decode field offset strictness stream = .error e) : e.field = field := by
  cases stream with
  | nil =>
    cases failed
    rfl
  | cons marker payload =>
    simp only [decode] at failed
    split at failed
    next => cases failed
    split at failed
    next =>
      cases failed
      rfl
    split at failed
    next =>
      cases failed
      rfl
    next => cases failed

/-! ### The least form -/

theorem isForm_ofValue (value : UInt64) : (ofValue value).IsForm := by
  have bound := value.toNat_lt
  simp only [IsForm, ofValue, size, UInt64.lt_iff_toNat_lt, UInt64.le_iff_toNat_le]
  split
  next => omega
  split
  next => exact .inr ⟨by omega, by simp at *; omega⟩
  split
  next => exact .inr ⟨by omega, by simp at *; omega⟩
  next => exact .inr ⟨by omega, by simp; omega⟩

theorem isCanonical_ofValue (value : UInt64) : (ofValue value).isCanonical = true := by
  simp [isCanonical, ofValue]

theorem bytes_ofValue (value : UInt64) : (ofValue value).bytes = encode value := by
  simp only [bytes, ofValue, size, encode]
  repeat' split
  all_goals first | rfl | contradiction

theorem eq_ofValue (canonical : v.isCanonical = true) : v = ofValue v.value := by
  obtain ⟨value, width⟩ := v
  simpa [isCanonical, ofValue] using canonical

theorem bytes_of_isCanonical (canonical : v.isCanonical = true) : v.bytes = encode v.value := by
  rw [eq_ofValue canonical, bytes_ofValue]
  rfl

end VarInt

open VarInt in
theorem readVarInt_accepts (strictness : Strictness) (field : String) :
    (readVarInt strictness field).Accepts fun bytes value =>
      ∃ v : VarInt, v.IsForm ∧ (strictness = .strict → v.isCanonical = true) ∧
        v.bytes = bytes ∧ v.value = value := by
  intro before value after inside
  unfold readVarInt
  constructor
  · intro ran
    split at ran
    next v decoded =>
      obtain ⟨form, canonical, rest, found⟩ := form_of_decode decoded
      cases ran
      refine ⟨v.bytes, ⟨v, form, canonical, rfl, rfl⟩, ?_, ?_, inside⟩
      · simp [Cursor.advance, found, ← length_bytes form]
      · simp [Cursor.advance, length_bytes form]
    next => cases ran
  · rintro ⟨_, ⟨v, form, canonical, rfl, rfl⟩, rest, position, insideAfter⟩
    have moved : before.advance v.width = after := by
      rw [length_bytes form] at position
      rw [Cursor.advance, rest, ← length_bytes form, List.drop_left, length_bytes form, ← position,
        inside, ← insideAfter]
    rw [rest, decode_of_form form canonical, ← moved]

theorem readVarInt_needsByte (strictness : Strictness) (field : String) :
    (readVarInt strictness field).NeedsByte := by
  intro c empty
  refine ⟨field, 1, ?_, Nat.one_pos⟩
  rw [readVarInt, empty]
  rfl

theorem readVarInt_names_field {strictness : Strictness} {field : String} {c stop : Cursor}
    {e : DecodeError} (failed : readVarInt strictness field c = .error e stop) :
    e.field = field := by
  unfold readVarInt at failed
  split at failed
  next => cases failed
  next cause decoded =>
    cases failed
    exact VarInt.decode_names_field decoded

end TokenLedger
