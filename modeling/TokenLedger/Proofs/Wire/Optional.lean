import TokenLedger.Proofs.Text.Utf8
import TokenLedger.Proofs.Wire.Reading

/-!
# Optional byte strings

What is absent, what is empty and what is there have different bytes, as long as the length fits
its field of 32 bits.
-/

namespace TokenLedger

/-- The length fits its field. -/
def OptionalBytesFit (value : Option Bytes) : Prop := ∀ bytes ∈ value, bytes.length < 2 ^ 32

def OptionalTextFits (value : Option String) : Prop := OptionalBytesFit (value.map Utf8.encode)

/-- The flag of an optional byte string decides what is to follow. -/
theorem readFlagged_accepts (field : String) (position : Nat) (flag : UInt8) :
    ReadM.Accepts (match flag with
      | 0 => return none
      | 1 => return some (← readBytes field (← readUInt32 field).toNat)
      | flag => throw (.malformed field position (.presenceFlag flag)))
      fun bytes (value : Option Bytes) =>
        OptionalBytesFit value ∧ encodeOptionalBytes value = flag :: bytes := by
  split
  next =>
    refine (ReadM.Accepts.pure none).congr fun bytes value => ?_
    cases value with
    | none => simp [OptionalBytesFit, encodeOptionalBytes]
    | some payload => simp [encodeOptionalBytes]
  next =>
    refine ((readUInt32_accepts field).bind fun length =>
      (readBytes_accepts field length.toNat).bind fun payload => .pure (some payload)).congr ?_
    intro bytes value
    constructor
    · rintro ⟨_, length, _, rfl, ⟨_, payload, _, ⟨rfl, counts⟩, ⟨rfl, rfl⟩, rfl⟩, rfl⟩
      have fits : payload.length < 2 ^ 32 := by
        rw [counts]
        exact length.toNat_lt
      refine ⟨by simpa [OptionalBytesFit] using fits, ?_⟩
      rw [encodeOptionalBytes, counts, encodeUInt32, List.append_nil]
    · rintro ⟨fits, written⟩
      cases value with
      | none => simp [encodeOptionalBytes] at written
      | some payload =>
        have small : payload.length < 2 ^ 32 := fits payload rfl
        have length : (UInt32.ofNat payload.length).toNat = payload.length :=
          UInt32.toNat_ofNat_of_lt' small
        refine ⟨_, UInt32.ofNat payload.length, payload, rfl,
          ⟨payload, payload, [], ⟨rfl, length.symm⟩, ⟨rfl, rfl⟩, List.append_nil _⟩, ?_⟩
        rw [encodeUInt32, length]
        exact (List.cons.inj written).2
  next notZero notOne =>
    refine (ReadM.Accepts.throw _).congr fun bytes value => ?_
    simp only [false_iff, not_and]
    intro _ written
    cases value with
    | none => exact notZero (List.cons.inj written).1.symm
    | some payload => exact notOne (List.cons.inj written).1.symm

theorem readOptionalBytes_accepts (field : String) :
    (readOptionalBytes field).Accepts fun bytes value =>
      OptionalBytesFit value ∧ encodeOptionalBytes value = bytes := by
  refine ReadM.Accepts.bind_get fun start => ?_
  refine ((readUInt8_accepts field).bind (readFlagged_accepts field start.position)).congr ?_
  intro bytes value
  constructor
  · rintro ⟨_, flag, rest, rfl, good, rfl⟩
    exact good
  · rintro ⟨fits, written⟩
    cases value with
    | none => exact ⟨[0], 0, [], rfl, ⟨fits, rfl⟩, written⟩
    | some payload => exact ⟨[1], 1, _, rfl, ⟨fits, rfl⟩, written⟩

theorem encodeOptionalBytes_selfDelimiting :
    SelfDelimiting OptionalBytesFit encodeOptionalBytes :=
  (readOptionalBytes_accepts "").selfDelimiting

/-- The bytes of an optional text are decoded once they are read. -/
theorem decodeRead_accepts (field : String) (position : Nat) (read : Option Bytes) :
    ReadM.Accepts (match read with
      | none => return none
      | some bytes =>
        match Utf8.decode bytes with
        | .ok text => return some text
        | .error fault => throw (.malformed field position (.notText fault)))
      fun bytes (value : Option String) => bytes = [] ∧ value.map Utf8.encode = read := by
  split
  next =>
    refine (ReadM.Accepts.pure none).congr fun bytes value => ?_
    rw [Option.map_eq_none_iff]
  next payload =>
    split
    next text decoded =>
      refine (ReadM.Accepts.pure (some text)).congr fun bytes value => ?_
      obtain rfl := Utf8.decode_eq_ok_iff.mp decoded
      constructor
      · rintro ⟨ended, rfl⟩
        exact ⟨ended, rfl⟩
      · rintro ⟨ended, same⟩
        obtain ⟨other, rfl, written⟩ := Option.map_eq_some_iff.mp same
        exact ⟨ended, by rw [Utf8.encode_inj written]⟩
    next fault failed =>
      refine (ReadM.Accepts.throw _).congr fun bytes value => ?_
      simp only [false_iff, not_and]
      intro _ same
      obtain ⟨text, rfl, written⟩ := Option.map_eq_some_iff.mp same
      rw [Utf8.decode_eq_ok_iff.mpr written] at failed
      cases failed

theorem readOptionalText_accepts (field : String) :
    (readOptionalText field).Accepts fun bytes value =>
      OptionalTextFits value ∧ encodeOptionalText value = bytes := by
  refine ReadM.Accepts.bind_get fun start => ?_
  refine ((readOptionalBytes_accepts field).bind (decodeRead_accepts field start.position)).congr ?_
  intro bytes value
  constructor
  · rintro ⟨_, _, _, ⟨fits, rfl⟩, ⟨rfl, rfl⟩, rfl⟩
    exact ⟨fits, (List.append_nil _).symm⟩
  · rintro ⟨fits, rfl⟩
    exact ⟨_, _, [], ⟨fits, rfl⟩, ⟨rfl, rfl⟩, List.append_nil _⟩

theorem encodeOptionalText_selfDelimiting : SelfDelimiting OptionalTextFits encodeOptionalText :=
  (readOptionalText_accepts "").selfDelimiting

end TokenLedger
