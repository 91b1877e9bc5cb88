import TokenLedger.Proofs.Bytes.Positional
import TokenLedger.Proofs.Outcome
import TokenLedger.Proofs.Wire.SelfDelimiting
import TokenLedger.Wire

/-!
# What readers accept

A reader is described by a grammar: which bytes it takes for which value. It reads a value exactly
when such bytes stand at the cursor, whatever comes behind them, and leaves the cursor at their
end. The grammar of a sequence of readers is put together from theirs. All of this is about cursors
inside their buffers: behind the end a reader that begins with a byte finds none.
-/

namespace TokenLedger

/-- The bytes that stand for a value. -/
abbrev Grammar (α : Type) := Bytes → α → Prop

/-- The reader takes the bytes of its grammar and nothing else, wherever they stand. -/
def ReadM.Accepts {α : Type} (read : ReadM α) (grammar : Grammar α) : Prop :=
  ∀ before value after, before.beyond = 0 → (read before = .ok value after ↔
    ∃ bytes, grammar bytes value ∧ before.rest = bytes ++ after.rest ∧
      after.position = before.position + bytes.length ∧ after.beyond = 0)

/-- The reader begins with a byte: where none is left, in the buffer or behind its end, it says so
before it takes anything. -/
def ReadM.NeedsByte {α : Type} (read : ReadM α) : Prop :=
  ∀ c, c.rest = [] →
    ∃ field needed, read c = .error (.truncated field c.position needed 0) c ∧ 0 < needed

namespace ReadM.NeedsByte

variable {α β : Type} {read : ReadM α}

theorem bind {next : α → ReadM β} (needs : read.NeedsByte) : (read >>= next).NeedsByte := by
  intro c empty
  obtain ⟨field, needed, failed, pos⟩ := needs c empty
  exact ⟨field, needed, estate_bind_of_error failed, pos⟩

theorem bind_get {body : Cursor → ReadM α} (needs : ∀ c, (body c).NeedsByte) :
    (get >>= body).NeedsByte := fun c => needs c c

/-- What is decoded begins in the buffer. -/
theorem le_of_decodeAt (needs : read.NeedsByte) {buffer : Bytes} {offset taken : Nat} {value : α}
    (decoded : read.decodeAt buffer offset = .ok (value, taken)) : offset ≤ buffer.length := by
  by_contra outside
  have empty : (Cursor.ofBuffer buffer offset).rest = [] := List.drop_eq_nil_of_le (by omega)
  obtain ⟨field, needed, failed, -⟩ := needs _ empty
  rw [decodeAt, failed] at decoded
  cases decoded

end ReadM.NeedsByte

namespace ReadM.Accepts

variable {α β : Type} {read : ReadM α} {grammar : Grammar α}

theorem congr {grammar' : Grammar α} (accepts : read.Accepts grammar)
    (same : ∀ bytes value, grammar bytes value ↔ grammar' bytes value) :
    read.Accepts grammar' := by
  intro before value after inside
  simp only [accepts before value after inside, same]

theorem pure (value : α) :
    Accepts (pure value) fun bytes value' => bytes = [] ∧ value' = value := by
  intro before value' after inside
  constructor
  · intro ran
    cases ran
    exact ⟨[], ⟨rfl, rfl⟩, rfl, rfl, inside⟩
  · rintro ⟨_, ⟨rfl, rfl⟩, rest, position, insideAfter⟩
    cases before
    cases after
    cases rest
    cases position
    cases inside
    cases insideAfter
    rfl

theorem throw (failure : DecodeError) :
    Accepts (throw failure : ReadM α) fun _ _ => False := by
  intro before value after _
  constructor
  · intro ran
    cases ran
  · rintro ⟨_, impossible, _⟩
    exact impossible.elim

theorem bind {next : α → ReadM β} {grammar' : α → Grammar β} (accepts : read.Accepts grammar)
    (accepts' : ∀ value, (next value).Accepts (grammar' value)) :
    (read >>= next).Accepts fun bytes result =>
      ∃ first value rest, grammar first value ∧ grammar' value rest result ∧
        first ++ rest = bytes := by
  intro before result after inside
  rw [estate_bind_eq_ok]
  constructor
  · rintro ⟨value, between, head, tail⟩
    obtain ⟨first, good, rest, position, inside⟩ := (accepts _ _ _ inside).mp head
    obtain ⟨second, good', rest', position', inside'⟩ := (accepts' _ _ _ _ inside).mp tail
    refine ⟨first ++ second, ⟨first, value, second, good, good', rfl⟩, ?_, ?_, inside'⟩
    · rw [rest, rest', List.append_assoc]
    · rw [position', position, List.length_append, Nat.add_assoc]
  · rintro ⟨_, ⟨first, value, second, good, good', rfl⟩, rest, position, insideAfter⟩
    refine ⟨value, ⟨before.position + first.length, second ++ after.rest, 0⟩, ?_, ?_⟩
    · exact (accepts _ _ _ inside).mpr
        ⟨first, good, by rw [rest, List.append_assoc], rfl, rfl⟩
    · refine (accepts' _ _ _ _ rfl).mpr ⟨second, good', rfl, ?_, insideAfter⟩
      rw [position, List.length_append, Nat.add_assoc]

/-- A position that is only reported in errors has no part in the grammar. -/
theorem bind_get {body : Cursor → ReadM α} (accepts : ∀ c, (body c).Accepts grammar) :
    (get >>= body).Accepts grammar := by
  intro before value after
  exact accepts before before value after

theorem ite {blocked : Prop} [Decidable blocked] {read' : ReadM α} {grammar' : Grammar α}
    (accepts : read.Accepts grammar) (accepts' : read'.Accepts grammar') :
    (if blocked then read else read').Accepts fun bytes value =>
      if blocked then grammar bytes value else grammar' bytes value := by
  by_cases h : blocked
  · simpa only [if_pos h] using accepts
  · simpa only [if_neg h] using accepts'

/-- What can be read can be told apart. -/
theorem selfDelimiting {good : α → Prop} {encode : α → Bytes}
    (accepts : read.Accepts fun bytes value => good value ∧ encode value = bytes) :
    SelfDelimiting good encode := by
  intro a b goodA goodB r s same
  have first := (accepts ⟨0, encode a ++ r, 0⟩ a ⟨0 + (encode a).length, r, 0⟩ rfl).mpr
    ⟨_, ⟨goodA, rfl⟩, rfl, rfl, rfl⟩
  have second := (accepts ⟨0, encode b ++ s, 0⟩ b ⟨0 + (encode b).length, s, 0⟩ rfl).mpr
    ⟨_, ⟨goodB, rfl⟩, rfl, rfl, rfl⟩
  rw [same, second] at first
  cases first
  exact ⟨rfl, rfl⟩

/-! ### Whole runs -/

/-- Read at an offset in the buffer, the bytes of a value are found there and counted. -/
theorem decodeAt_eq_ok_iff (accepts : read.Accepts grammar) {buffer : Bytes}
    {offset taken : Nat} {value : α} (inside : offset ≤ buffer.length) :
    read.decodeAt buffer offset = .ok (value, taken) ↔
      ∃ bytes rest, grammar bytes value ∧ buffer.drop offset = bytes ++ rest ∧
        taken = bytes.length := by
  have start : (Cursor.ofBuffer buffer offset).beyond = 0 := Nat.sub_eq_zero_of_le inside
  unfold decodeAt
  constructor
  · intro decoded
    split at decoded
    next after ran =>
      obtain ⟨bytes, good, rest, position, -⟩ := (accepts _ _ _ start).mp ran
      cases decoded
      refine ⟨bytes, after.rest, good, rest, ?_⟩
      rw [position]
      exact Nat.add_sub_cancel_left _ _
    next => cases decoded
  · rintro ⟨bytes, rest, good, found, rfl⟩
    have ran := (accepts (.ofBuffer buffer offset) value ⟨offset + bytes.length, rest, 0⟩ start).mpr
      ⟨bytes, good, found, rfl, rfl⟩
    rw [ran]
    simp only [Nat.add_sub_cancel_left]

/-- Read as a whole, a buffer is the bytes of its value. -/
theorem decodeAll_eq_ok_iff (accepts : read.Accepts grammar) {field : String} {buffer : Bytes}
    {value : α} :
    read.decodeAll field buffer = .ok value ↔ grammar buffer value := by
  have start : (Cursor.ofBuffer buffer 0).beyond = 0 := Nat.zero_sub _
  unfold decodeAll
  constructor
  · intro decoded
    split at decoded
    next after ran =>
      obtain ⟨bytes, good, rest, -⟩ := (accepts _ _ _ start).mp ran
      split at decoded
      next ended =>
        have none_left : after.rest = [] := by simpa [Cursor.atEnd] using ended
        have whole : buffer = bytes := by simpa [Cursor.ofBuffer, none_left] using rest
        cases decoded
        rwa [whole]
      next => cases decoded
    next => cases decoded
  · intro good
    have ran := (accepts (.ofBuffer buffer 0) value ⟨buffer.length, [], 0⟩ start).mpr
      ⟨buffer, good, by simp [Cursor.ofBuffer], by simp [Cursor.ofBuffer], rfl⟩
    rw [ran]
    simp [Cursor.atEnd]

end ReadM.Accepts

/-! ### Fixed widths -/

theorem readFixed_accepts (field : String) (n : Nat) :
    (readFixed field n).Accepts fun bytes value => value.val = bytes := by
  intro before value after inside
  unfold readFixed
  constructor
  · intro ran
    split at ran
    next enough =>
      cases ran
      refine ⟨_, rfl, (List.take_append_drop n _).symm, ?_, inside⟩
      simp [Cursor.advance, enough]
    next => cases ran
  · rintro ⟨_, rfl, rest, position, insideAfter⟩
    have enough : n ≤ before.rest.length := by
      rw [rest, List.length_append, value.property]
      exact Nat.le_add_right _ _
    have front : before.rest.take n = value.val := by
      rw [rest]
      exact List.take_left' value.property
    have back : before.rest.drop n = after.rest := by
      rw [rest]
      exact List.drop_left' value.property
    have moved : before.advance n = after := by
      rw [value.property] at position
      rw [Cursor.advance, back, ← position, inside, ← insideAfter]
    rw [dif_pos enough, if_pos inside, moved]
    exact congrArg (EStateM.Result.ok · after) (Subtype.ext front)

theorem readFixed_needsByte {n : Nat} (pos : 0 < n) (field : String) :
    (readFixed field n).NeedsByte := by
  intro c empty
  have few : ¬ n ≤ c.rest.length := by rw [empty]; exact Nat.not_le.mpr pos
  refine ⟨field, n, ?_, pos⟩
  rw [readFixed, dif_neg few, Cursor.remaining, empty, List.length_nil]

theorem FixedBytes.selfDelimiting {n : Nat} :
    SelfDelimiting (fun _ => True) fun bytes : FixedBytes n => bytes.val :=
  .of_length (fun bytes _ => bytes.property) fun _ _ _ _ => Subtype.ext

theorem readBytes_accepts (field : String) (n : Nat) :
    (readBytes field n).Accepts fun bytes value => value = bytes ∧ bytes.length = n := by
  refine ((readFixed_accepts field n).bind fun taken => .pure taken.val).congr ?_
  intro bytes value
  constructor
  · rintro ⟨_, taken, _, rfl, ⟨rfl, rfl⟩, rfl⟩
    exact ⟨by rw [List.append_nil], by rw [List.append_nil, taken.property]⟩
  · rintro ⟨rfl, width⟩
    exact ⟨value, ⟨value, width⟩, [], rfl, ⟨rfl, rfl⟩, List.append_nil _⟩

theorem readBytes_needsByte {n : Nat} (pos : 0 < n) (field : String) :
    (readBytes field n).NeedsByte :=
  (readFixed_needsByte pos field).bind

/-- A number is read from its width of bytes. -/
theorem readNumber_accepts {α : Type} {width : Nat} {ofBytes : Bytes → α} (field : String) :
    (readNumber width ofBytes field).Accepts fun bytes value =>
      bytes.length = width ∧ ofBytes bytes = value := by
  refine ((readBytes_accepts field width).bind fun taken => .pure (ofBytes taken)).congr ?_
  intro bytes value
  constructor
  · rintro ⟨_, taken, _, ⟨rfl, length⟩, ⟨rfl, rfl⟩, rfl⟩
    rw [List.append_nil]
    exact ⟨length, rfl⟩
  · rintro ⟨length, rfl⟩
    exact ⟨bytes, bytes, [], ⟨rfl, length⟩, ⟨rfl, rfl⟩, List.append_nil _⟩

theorem readNumber_needsByte {α : Type} {width : Nat} {ofBytes : Bytes → α} (pos : 0 < width)
    (field : String) : (readNumber width ofBytes field).NeedsByte :=
  (readBytes_needsByte pos field).bind

/-- The bytes that a number is read from are the ones that it is written in. -/
theorem ofLittleEndian_eq_iff {α : Type} {width : Nat} {number : α → Nat} {ofNumber : Nat → α}
    (small : ∀ value, number value < 256 ^ width) (back : ∀ value, ofNumber (number value) = value)
    (same : ∀ n < 256 ^ width, number (ofNumber n) = n) (bytes : Bytes) (value : α) :
    bytes.length = width ∧ ofNumber (Bytes.ofLittleEndian bytes) = value ↔
      Bytes.littleEndian width (number value) = bytes := by
  rw [Bytes.littleEndian_eq_iff (small value)]
  refine and_congr_right fun length => ?_
  have fits := Bytes.ofLittleEndian_lt bytes
  rw [length] at fits
  constructor
  · rintro rfl
    exact (same _ fits).symm
  · intro written
    rw [written, back]

theorem readUInt8_accepts (field : String) :
    (readUInt8 field).Accepts fun bytes value => bytes = [value] := by
  refine (readNumber_accepts field).congr ?_
  intro bytes value
  constructor
  · rintro ⟨width, rfl⟩
    obtain ⟨b, rfl⟩ := List.length_eq_one_iff.mp width
    simp [Bytes.ofLittleEndian]
  · rintro rfl
    exact ⟨rfl, by simp [Bytes.ofLittleEndian]⟩

theorem readUInt32_accepts (field : String) :
    (readUInt32 field).Accepts fun bytes value => encodeUInt32 value = bytes :=
  (readNumber_accepts field).congr (ofLittleEndian_eq_iff UInt32.toNat_lt
    (fun _ => UInt32.ofNat_toNat) fun _ => UInt32.toNat_ofNat_of_lt')

/-- A number is also read with its heaviest byte first. -/
theorem readUInt32BE_accepts (field : String) :
    (readUInt32BE field).Accepts fun bytes value => Bytes.bigEndian 4 value.toNat = bytes := by
  refine (readNumber_accepts field).congr ?_
  intro bytes value
  rw [Bytes.bigEndian_eq_iff value.toNat_lt]
  refine and_congr_right fun length => ?_
  have fits := Bytes.ofBigEndian_lt bytes
  rw [length] at fits
  constructor
  · rintro rfl
    exact (UInt32.toNat_ofNat_of_lt' fits).symm
  · intro written
    rw [written, UInt32.ofNat_toNat]

/-- The sign is the heaviest bit. -/
theorem readInt64_accepts (field : String) :
    (readInt64 field).Accepts fun bytes value => encodeInt64 value = bytes := by
  have small (value : Int64) : value.toUInt64.toNat < 256 ^ 8 := value.toUInt64.toNat_lt
  have back (value : Int64) : (UInt64.ofNat value.toUInt64.toNat).toInt64 = value := by
    rw [UInt64.ofNat_toNat, Int64.toInt64_toUInt64]
  have same (n : Nat) (fits : n < 256 ^ 8) : (UInt64.ofNat n).toInt64.toUInt64.toNat = n := by
    rw [UInt64.toUInt64_toInt64]
    exact UInt64.toNat_ofNat_of_lt' fits
  exact (readNumber_accepts field).congr (ofLittleEndian_eq_iff small back same)

theorem encodeUInt32_selfDelimiting : SelfDelimiting (fun _ => True) encodeUInt32 := by
  have accepts := (readUInt32_accepts "").congr fun _ _ => (and_iff_right trivial).symm
  exact accepts.selfDelimiting

end TokenLedger
