import Mathlib.Tactic.Lift
import TokenLedger.Proofs.Number
import TokenLedger.Proofs.Script.Building

/-!
# Shortest pushes

A push stands for its data, and the codes of the numbers from -1 on, but for zero, stand for the
bytes of the number. Among the well-formed chunks that stand for the same bytes one is shorter than
all others: the code of a number where there is one, and else the push that takes the least room for
the length. It is the one that the test for shortest pushes accepts, and the one that is built from
all data but the byte of -1.
-/

namespace TokenLedger

namespace ScriptNumber

theorem encode_minusOne : encode (-1) = [0x81] := by
  have magnitude : Bytes.magnitudeBE 1 = [1] := by simp [Bytes.magnitudeBE, Bytes.magnitudeLE]
  have negative : (-1 : Int) < 0 := by decide
  rw [encode, Number.encodeBE, if_pos negative, Int.natAbs_neg, Int.natAbs_one, magnitude]
  rfl

theorem encode_inj {n m : Int} : encode n = encode m ↔ n = m := by
  constructor
  · intro same
    have reversed : Number.encodeBE n = Number.encodeBE m := List.reverse_inj.mp same
    rw [← Number.decodeBE_encodeBE n, reversed, Number.decodeBE_encodeBE]
  · rintro rfl
    rfl

end ScriptNumber

namespace Chunk

variable {chunk : Chunk} {code : UInt8} {data : Bytes}

/-! ### The shortest chunk for some bytes -/

/-- The bytes that a chunk stands for: a push for its data, the code of a number for the bytes of
the number. -/
inductive Denotes : Chunk → Bytes → Prop where
  | push (code : UInt8) (data : Bytes) : Denotes (push code data) data
  | minusOne : Denotes (op Opcode.minusOne) (ScriptNumber.encode (-1))
  | number {n : Nat} (pos : 1 ≤ n) (small : n ≤ 16) :
      Denotes (op (Opcode.one + UInt8.ofNat n - 1)) (ScriptNumber.encode (n : Int))

/-- A code that stands for bytes is that of a number in one byte, and its instruction pushes it. -/
theorem Denotes.exists_number (denotes : (op code).Denotes data) :
    ∃ n : Int, Instruction.ofCode code = .number n ∧ data = ScriptNumber.encode n ∧
      data.length = 1 ∧ Opcode.pushData4 < code ∧ code ≤ Opcode.sixteen := by
  cases denotes with
  | minusOne =>
    refine ⟨-1, rfl, rfl, ?_, by decide, by decide⟩
    rw [ScriptNumber.encode_minusOne, List.length_singleton]
  | @number n pos small =>
    obtain ⟨beyond, atMost, -, meaning⟩ := number_code pos small
    refine ⟨n, meaning, rfl, ?_, beyond, atMost⟩
    rw [ScriptNumber.encode_of_lt pos (by omega), List.length_singleton]

/-- The shortest chunk that stands for the bytes. Only the byte of -1 is built into another one. -/
def shortestPush (data : Bytes) : Chunk :=
  if data = [0x81] then op Opcode.minusOne else BuildStep.dataChunk data

/-- The shortest chunk is a code, or the push with the smallest length field. -/
theorem shortestPush_cases (data : Bytes) :
    (∃ code, shortestPush data = op code ∧ (op code).Denotes data) ∨
      shortestPush data = ofData data := by
  unfold shortestPush
  by_cases negative : data = [0x81]
  · rw [if_pos negative, negative, ← ScriptNumber.encode_minusOne]
    exact .inl ⟨_, rfl, .minusOne⟩
  · rw [if_neg negative]
    obtain ⟨same, -⟩ | ⟨n, pos, small, single, same⟩ := BuildStep.dataChunk_cases data
    · exact .inr same
    · rw [same, single, ← ScriptNumber.encode_of_lt pos (by omega)]
      exact .inl ⟨_, rfl, .number pos small⟩

theorem denotes_shortestPush (data : Bytes) : (shortestPush data).Denotes data := by
  obtain ⟨code, same, denotes⟩ | same := shortestPush_cases data
  · rw [same]
    exact denotes
  · rw [same]
    exact .push _ data

theorem wellFormed_shortestPush (fits : data.length < 2 ^ 32) : (shortestPush data).WellFormed := by
  obtain ⟨code, same, denotes⟩ | same := shortestPush_cases data
  · obtain ⟨-, -, -, -, beyond, -⟩ := denotes.exists_number
    rw [same]
    exact .op beyond
  · rw [same]
    exact wellFormed_ofData fits

/-- A code that stands for bytes is the shortest chunk for them. -/
theorem Denotes.op_eq_shortestPush (denotes : (op code).Denotes data) :
    op code = shortestPush data := by
  cases denotes with
  | minusOne => rw [shortestPush, if_pos ScriptNumber.encode_minusOne]
  | @number n pos small =>
    rw [ScriptNumber.encode_of_lt pos (by omega)]
    interval_cases n <;> rfl

/-! ### Longer pushes -/

theorem WellFormed.code_le (good : (push code data).WellFormed) : code ≤ Opcode.pushData4 := by
  by_contra beyond
  cases good.eq_op (UInt8.not_le.mp beyond)

/-- The least length field for so many bytes. -/
theorem lengthWidth?_pushCode (length : Nat) :
    (lengthWidth? (pushCode length)).getD 0 =
      if length < 76 then 0 else if length < 256 then 1 else if length < 65536 then 2 else 4 := by
  by_cases direct : length < 76
  · rw [if_pos direct, lengthWidth?, if_pos (pushCode_of_lt direct).1, Option.getD_some]
  · unfold pushCode
    rw [if_neg direct, if_neg direct]
    split
    · rfl
    · split <;> rfl

/-- Any other code leaves more room for the length. -/
theorem encodedLength_ofData_lt (good : (push code data).WellFormed)
    (other : code ≠ pushCode data.length) :
    (ofData data).encodedLength < (push code data).encodedLength := by
  suffices narrower :
      (lengthWidth? (pushCode data.length)).getD 0 < (lengthWidth? code).getD 0 by
    rw [ofData, encodedLength, encodedLength]
    omega
  rw [lengthWidth?_pushCode]
  unfold pushCode at other
  -- Where the code is not the one for the length, the length is too small to need its field.
  cases good with
  | direct short length =>
    have direct : data.length < 76 := length.trans_lt (UInt8.lt_iff_toNat_lt.mp short)
    rw [if_pos direct, length, UInt8.ofNat_toNat] at other
    exact absurd rfl other
  | pushData1 fits =>
    have direct : data.length < 76 := by
      by_contra long
      rw [if_neg long, if_pos (by omega)] at other
      exact other rfl
    rw [if_pos direct]
    decide
  | pushData2 fits =>
    have short : data.length < 256 := by
      by_contra long
      rw [if_neg (by omega), if_neg long, if_pos (by omega)] at other
      exact other rfl
    rw [if_pos short]
    split <;> decide
  | pushData4 fits =>
    have short : data.length < 65536 := by
      by_contra long
      rw [if_neg (by omega), if_neg (by omega), if_neg long] at other
      exact other rfl
    rw [if_pos short]
    split
    · decide
    · split <;> decide

/-- All other chunks that stand for the same bytes are longer. -/
theorem Denotes.encodedLength_lt (good : chunk.WellFormed) (denotes : chunk.Denotes data)
    (other : chunk ≠ shortestPush data) :
    (shortestPush data).encodedLength < chunk.encodedLength := by
  cases chunk with
  | op code => exact absurd denotes.op_eq_shortestPush other
  | push code data =>
    cases denotes
    obtain ⟨_, same, asCode⟩ | same := shortestPush_cases data
    · obtain ⟨-, -, -, single, -⟩ := asCode.exists_number
      rw [same, encodedLength, encodedLength, single]
      omega
    · rw [same] at other ⊢
      exact encodedLength_ofData_lt good fun least => other (by rw [least, ofData])

theorem Denotes.encodedLength_le (good : chunk.WellFormed) (denotes : chunk.Denotes data) :
    (shortestPush data).encodedLength ≤ chunk.encodedLength := by
  by_cases same : chunk = shortestPush data
  · rw [same]
  · exact Nat.le_of_lt (denotes.encodedLength_lt good same)

/-- Only so many bytes have a length that can be written. -/
theorem Denotes.length_lt (good : chunk.WellFormed) (denotes : chunk.Denotes data) :
    data.length < 2 ^ 32 := by
  cases chunk with
  | op code =>
    obtain ⟨-, -, -, single, -⟩ := denotes.exists_number
    omega
  | push code data =>
    cases denotes
    cases good with
    | direct short length =>
      have direct : data.length < 76 := length.trans_lt (UInt8.lt_iff_toNat_lt.mp short)
      omega
    | pushData1 fits => omega
    | pushData2 fits => omega
    | pushData4 fits => exact fits

/-! ### The test for shortest pushes -/

/-- The test compares the code with that of the shortest chunk. -/
theorem isShortestPush_push (code : UInt8) (data : Bytes) :
    (push code data).isShortestPush = (code == (shortestPush data).code) := by
  have negative (b : UInt8) : [b] = [0x81] ↔ b = 0x81 := List.singleton_inj
  rcases data with _ | ⟨b, _ | ⟨c, data⟩⟩
  · rfl
  · have large : ¬ (0x81 : UInt8) ≤ 16 := by decide
    rw [isShortestPush, shortestPush, BuildStep.dataChunk]
    simp only [negative]
    by_cases number : 1 ≤ b ∧ b ≤ 16
    · have other : b ≠ 0x81 := fun same => large (same ▸ number.2)
      rw [if_pos number, if_neg other, if_pos number, Chunk.code]
    · rw [if_neg number, if_neg number]
      split <;> rfl
  · rw [isShortestPush, shortestPush, if_neg (by simp)]
    · rfl
    · simp

theorem isShortestPush_shortestPush (data : Bytes) :
    (shortestPush data).isShortestPush = true := by
  obtain ⟨_, same, -⟩ | same := shortestPush_cases data
  · rw [same]
    rfl
  · rw [same, ofData, isShortestPush_push, same, ofData, code, beq_self_eq_true]

/-- A chunk that stands for bytes passes the test exactly if it is the shortest one for them. -/
theorem Denotes.isShortestPush_iff (good : chunk.WellFormed) (denotes : chunk.Denotes data) :
    chunk.isShortestPush = true ↔ chunk = shortestPush data := by
  constructor
  · intro accepted
    cases chunk with
    | op code => exact denotes.op_eq_shortestPush
    | push code data =>
      cases denotes
      rw [isShortestPush_push, beq_iff_eq] at accepted
      obtain ⟨_, same, asCode⟩ | same := shortestPush_cases data
      · obtain ⟨-, -, -, -, beyond, -⟩ := asCode.exists_number
        rw [accepted, same] at good
        exact absurd beyond (UInt8.not_lt.mpr good.code_le)
      · rw [accepted, same]
        rfl
  · rintro rfl
    exact isShortestPush_shortestPush data

end Chunk

/-! ### Built pushes -/

namespace BuildStep

variable {step : BuildStep} {bytes : Bytes}

/-- The bytes that a step of building asks for. A code asks for none. -/
def value? : BuildStep → Option Bytes
  | op _ => none
  | data bytes => some bytes
  | number n => some (ScriptNumber.encode n.toInt)

theorem denotes_dataChunk (bytes : Bytes) : (dataChunk bytes).Denotes bytes := by
  by_cases negative : bytes = [0x81]
  · rw [negative]
    exact .push _ _
  · have denotes := Chunk.denotes_shortestPush bytes
    rwa [Chunk.shortestPush, if_neg negative] at denotes

/-- Only the byte of -1 is not built into its shortest push. -/
theorem isShortestPush_dataChunk_iff :
    (dataChunk bytes).isShortestPush = true ↔ bytes ≠ [0x81] := by
  by_cases negative : bytes = [0x81]
  · rw [negative]
    decide
  · have shortest := Chunk.isShortestPush_shortestPush bytes
    rw [Chunk.shortestPush, if_neg negative] at shortest
    exact iff_of_true shortest negative

/-- Every number is built into its shortest push. -/
theorem numberChunk_eq_shortestPush (n : Int) :
    numberChunk n = Chunk.shortestPush (ScriptNumber.encode n) := by
  by_cases negative : n = -1
  · rw [negative, ScriptNumber.encode_minusOne]
    rfl
  · have other : ScriptNumber.encode n ≠ [0x81] := by
      rw [← ScriptNumber.encode_minusOne, Ne, ScriptNumber.encode_inj]
      exact negative
    rw [Chunk.shortestPush, if_neg other]
    by_cases coded : 0 ≤ n ∧ n ≤ 16
    · lift n to Nat using coded.1
      exact numberChunk_eq_dataChunk (by omega)
    · rw [numberChunk, Opcode.ofNumber?, if_neg (by omega), if_neg negative, if_neg (by omega)]

theorem denotes_chunk (asked : step.value? = some bytes) : step.chunk.Denotes bytes := by
  cases step with
  | op code => cases asked
  | data bytes =>
    cases asked
    exact denotes_dataChunk bytes
  | number n =>
    cases asked
    rw [chunk, numberChunk_eq_shortestPush]
    exact Chunk.denotes_shortestPush _

/-- What is built from a step passes the test for shortest pushes, but for the byte of -1 as
data. -/
theorem isShortestPush_chunk_iff : step.chunk.isShortestPush = true ↔ step ≠ data [0x81] := by
  cases step with
  | op code =>
    rw [chunk, opChunk]
    split
    · exact iff_of_true (isShortestPush_dataChunk_iff.mpr (by simp)) (by simp)
    · exact iff_of_true rfl (by simp)
  | data bytes => rw [chunk, isShortestPush_dataChunk_iff, Ne, Ne, data.injEq]
  | number n =>
    rw [chunk, numberChunk_eq_shortestPush]
    exact iff_of_true (Chunk.isShortestPush_shortestPush _) (by simp)

/-- What is built from the step can be read again: a code is zero or announces no data, and the
length of data can be written. -/
def Fits : BuildStep → Prop
  | op code => code = Opcode.empty ∨ Opcode.pushData4 < code
  | data bytes => bytes.length < 2 ^ 32
  | number _ => True

theorem wellFormed_chunk (fits : step.Fits) : step.chunk.WellFormed := by
  cases step with
  | op code =>
    rw [chunk, opChunk]
    split
    next => exact wellFormed_dataChunk (by decide)
    next other => exact .op (fits.resolve_left other)
  | data bytes => exact wellFormed_dataChunk fits
  | number n =>
    have small := ScriptNumber.length_encode_toInt_le n
    rw [chunk, numberChunk_eq_shortestPush]
    exact Chunk.wellFormed_shortestPush (by omega)

end BuildStep

namespace Script

variable {steps : List BuildStep}

theorem map_chunk_build (steps : List BuildStep) :
    (build steps).chunks.map (·.chunk) = steps.map BuildStep.chunk :=
  map_chunk_place 0 _

/-- The parser reads a built script back. -/
theorem parse_build (fit : ∀ step ∈ steps, step.Fits) :
    parse (build steps).program = .ok (build steps) := by
  refine parse_assemble fun chunk mem => ?_
  obtain ⟨step, among, rfl⟩ := List.mem_map.mp mem
  exact BuildStep.wellFormed_chunk (fit step among)

end Script

end TokenLedger
