import TokenLedger.Proofs.Wire.Bounds

/-!
# Outcomes of reading compact integers

What is written in the least width is read back wherever it stands. A strict decoder is the lenient
one behind which the integer is compared with what would have been written, and but for that
comparison decoding fails only where the first byte announces more bytes than are left.
-/

namespace TokenLedger.VarInt

variable {field : String} {strictness : Strictness} {offset : Nat} {stream : Bytes} {v : VarInt}
  {e : DecodeError}

/-! ### What is written -/

theorem length_encode (value : UInt64) : (encode value).length = size value := by
  rw [← bytes_ofValue, length_bytes (isForm_ofValue value)]
  rfl

/-- An integer that was read is canonical exactly if its bytes are the ones that are written. -/
theorem isCanonical_iff_bytes_eq (form : v.IsForm) :
    v.isCanonical = true ↔ v.bytes = encode v.value := by
  refine ⟨bytes_of_isCanonical, fun written => ?_⟩
  have width : v.width = size v.value := by
    rw [← length_bytes form, written, length_encode]
  simpa [isCanonical] using width

/-! ### The bytes that are announced -/

/-- The number of bytes that an integer takes by the first of them, itself included. -/
def announcedWidth : Bytes → Nat
  | [] => 1
  | marker :: _ => 1 + announced marker

theorem decode_of_few (few : stream.length < announcedWidth stream) :
    decode field offset strictness stream =
      .error (.truncated field offset (announcedWidth stream) stream.length) := by
  cases stream with
  | nil => rfl
  | cons marker payload =>
    have short : payload.length < announced marker := by
      rw [announcedWidth, List.length_cons] at few
      omega
    simp only [decode]
    rw [if_neg (by omega), if_pos short, announcedWidth, List.length_cons,
      Nat.add_comm 1 payload.length]

theorem exists_decode_of_enough (field : String) (offset : Nat)
    (enough : announcedWidth stream ≤ stream.length) :
    ∃ v, decode field offset .lenient stream = .ok v := by
  cases stream with
  | nil => cases enough
  | cons marker payload =>
    have long : ¬ payload.length < announced marker := by
      rw [announcedWidth, List.length_cons] at enough
      omega
    simp only [decode]
    split
    · exact ⟨_, rfl⟩
    · exact ⟨_, by rw [if_neg (by simp)]⟩

/-- A lenient decoder fails only where bytes are missing. -/
theorem decode_lenient_eq_error_iff :
    decode field offset .lenient stream = .error e ↔
      stream.length < announcedWidth stream ∧
        e = .truncated field offset (announcedWidth stream) stream.length := by
  constructor
  · intro failed
    have few : stream.length < announcedWidth stream := by
      by_contra enough
      obtain ⟨v, decoded⟩ := exists_decode_of_enough field offset (Nat.not_lt.mp enough)
      rw [decoded] at failed
      cases failed
    rw [decode_of_few few] at failed
    exact ⟨few, (Except.error.inj failed).symm⟩
  · rintro ⟨few, rfl⟩
    exact decode_of_few few

/-! ### Strict decoding -/

/-- A strict decoder judges what the lenient one reads. -/
theorem decode_strict_of_ok (decoded : decode field offset .lenient stream = .ok v) :
    decode field offset .strict stream =
      if v.isCanonical then .ok v
      else .error (.malformed field offset (.wideVarInt v.value v.width)) := by
  cases stream with
  | nil => cases decoded
  | cons marker payload =>
    simp only [decode] at decoded ⊢
    rcases lt_or_eq_marker marker with ⟨alone, small⟩ | ⟨wide, -⟩
    · rw [if_pos alone] at decoded ⊢
      cases decoded
      rw [if_pos (by simp [isCanonical, size_of_lt (toUInt64_lt small)])]
    · rw [if_neg (by omega)] at decoded ⊢
      split at decoded
      next => cases decoded
      next enough =>
        rw [if_neg (by simp)] at decoded
        cases decoded
        simp only [if_neg enough, true_and, ite_not]

/-- A strict decoder finds what the lenient one does where it stands as it is written. -/
theorem decode_strict_eq_ok_iff :
    decode field offset .strict stream = .ok v ↔
      decode field offset .lenient stream = .ok v ∧ stream.take v.width = encode v.value := by
  have standing {u : VarInt} (decoded : decode field offset .lenient stream = .ok u) :
      u.IsForm ∧ stream.take u.width = u.bytes := by
    obtain ⟨form, -, rest, rfl⟩ := form_of_decode decoded
    exact ⟨form, List.take_left' (length_bytes form)⟩
  constructor
  · intro decoded
    obtain ⟨form, canonical, rest, found⟩ := form_of_decode decoded
    have lenient : decode field offset .lenient stream = .ok v := by
      rw [found]
      exact decode_of_form form (by simp) rest
    exact ⟨lenient, (standing lenient).2.trans (bytes_of_isCanonical (canonical rfl))⟩
  · rintro ⟨decoded, written⟩
    obtain ⟨form, bytes⟩ := standing decoded
    have canonical := (isCanonical_iff_bytes_eq form).mpr (bytes.symm.trans written)
    rw [decode_strict_of_ok decoded, if_pos canonical]

/-- Decoding fails where bytes are missing; a strict decoder also rejects what it could have read in
another width. -/
theorem decode_eq_error_iff :
    decode field offset strictness stream = .error e ↔
      (stream.length < announcedWidth stream ∧
        e = .truncated field offset (announcedWidth stream) stream.length) ∨
      strictness = .strict ∧ ∃ v, decode field offset .lenient stream = .ok v ∧
        v.isCanonical = false ∧ e = .malformed field offset (.wideVarInt v.value v.width) := by
  cases strictness with
  | lenient =>
    rw [decode_lenient_eq_error_iff]
    exact ⟨.inl, fun outcome => outcome.resolve_right fun wide => by cases wide.1⟩
  | strict =>
    constructor
    · intro failed
      cases decoded : decode field offset .lenient stream with
      | error cause =>
        obtain ⟨few, rfl⟩ := decode_lenient_eq_error_iff.mp decoded
        rw [decode_of_few few] at failed
        exact .inl ⟨few, (Except.error.inj failed).symm⟩
      | ok v =>
        rw [decode_strict_of_ok decoded] at failed
        split at failed
        next => cases failed
        next wide =>
          exact .inr ⟨rfl, v, rfl, Bool.eq_false_iff.mpr wide, (Except.error.inj failed).symm⟩
    · rintro (⟨few, rfl⟩ | ⟨-, v, decoded, wide, rfl⟩)
      · exact decode_of_few few
      · rw [decode_strict_of_ok decoded, if_neg (Bool.eq_false_iff.mp wide)]

/-! ### At an offset -/

/-- Whatever stands around it, an integer that was written is read back. -/
theorem decodeAt_encode (field : String) (strictness : Strictness) (before after : Bytes)
    (value : UInt64) :
    decodeAt field strictness (before ++ encode value ++ after) before.length =
      .ok ⟨value, size value⟩ := by
  have canonical := isCanonical_ofValue value
  rw [decodeAt, List.append_assoc, List.drop_left, ← bytes_ofValue]
  exact decode_of_form (isForm_ofValue value) (fun _ => canonical) after

/-- A reader goes on behind the integer. -/
theorem readVarInt_ofBuffer_eq_ok_iff {buffer : Bytes} {value : UInt64} {after : Cursor} :
    readVarInt strictness field (.ofBuffer buffer offset) = .ok value after ↔
      ∃ v, decodeAt field strictness buffer offset = .ok v ∧ v.value = value ∧
        after = .ofBuffer buffer (offset + v.width) := by
  have moved {v : VarInt} (decoded : decodeAt field strictness buffer offset = .ok v) :
      (Cursor.ofBuffer buffer offset).advance v.width = .ofBuffer buffer (offset + v.width) := by
    obtain ⟨form, -, rest, found⟩ := form_of_decode decoded
    apply Cursor.advance_ofBuffer
    rw [Cursor.remaining, Cursor.ofBuffer, found, List.length_append, length_bytes form]
    exact Nat.le_add_right _ _
  unfold readVarInt
  constructor
  · intro ran
    split at ran
    next v decoded =>
      cases ran
      exact ⟨v, decoded, rfl, moved decoded⟩
    next => cases ran
  · rintro ⟨v, decoded, rfl, rfl⟩
    rw [← moved decoded]
    have here : decode field (Cursor.ofBuffer buffer offset).position strictness
        (Cursor.ofBuffer buffer offset).rest = .ok v := decoded
    rw [here]

/-- Compact integers are written in the size of their value and read back by either decoder wherever
they stand. The strict one finds what the lenient one does exactly where it stands as it is written.
Decoding fails only where fewer bytes are left than the first of them announces, and in the strict
decoder where an integer is wider than its value needs; readers go on behind what is decoded. -/
theorem reading_inverts_writing (field : String) (strictness : Strictness) (buffer : Bytes)
    (offset : Nat) :
    (∀ (value : UInt64) (before after : Bytes), (encode value).length = size value ∧
      decodeAt field strictness (before ++ encode value ++ after) before.length =
        .ok ⟨value, size value⟩) ∧
    (∀ v, decodeAt field .strict buffer offset = .ok v ↔
      decodeAt field .lenient buffer offset = .ok v ∧
        (buffer.drop offset).take v.width = encode v.value) ∧
    (∀ e, decodeAt field strictness buffer offset = .error e ↔
      (buffer.length - offset < announcedWidth (buffer.drop offset) ∧
        e = .truncated field offset (announcedWidth (buffer.drop offset))
          (buffer.length - offset)) ∨
      strictness = .strict ∧ ∃ v, decodeAt field .lenient buffer offset = .ok v ∧
        v.isCanonical = false ∧ e = .malformed field offset (.wideVarInt v.value v.width)) ∧
    ∀ value after, readVarInt strictness field (.ofBuffer buffer offset) = .ok value after ↔
      ∃ v, decodeAt field strictness buffer offset = .ok v ∧ v.value = value ∧
        after = .ofBuffer buffer (offset + v.width) := by
  refine ⟨fun value before after =>
      ⟨length_encode value, decodeAt_encode field strictness before after value⟩,
    fun v => decode_strict_eq_ok_iff, fun e => ?_, fun _ _ => readVarInt_ofBuffer_eq_ok_iff⟩
  have outcomes := @decode_eq_error_iff field strictness offset (buffer.drop offset) e
  rwa [List.length_drop] at outcomes

/-- Three bytes for a number that has room in one. -/
example : decodeAt "count" .lenient [0xaa, 0xfd, 5, 0] 1 = .ok ⟨5, 3⟩ := by decide

end TokenLedger.VarInt
