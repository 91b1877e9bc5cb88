import Mathlib.Algebra.Order.BigOperators.Group.List
import Mathlib.Tactic.IntervalCases
import TokenLedger.Machine.Instruction
import TokenLedger.Proofs.Script.Grammar
import TokenLedger.Script.Template

/-!
# Built pushes

Data is built into the shortest chunk that pushes it, which is a single code where the data is a
number from 1 to 16. Numbers up to 16 are built like the data that stands for them.
-/

namespace TokenLedger

/-! ### Small numbers -/

namespace ScriptNumber

theorem encode_of_lt {n : Nat} (pos : 1 ≤ n) (small : n < 128) :
    encode (n : Int) = [UInt8.ofNat n] := by
  have digit : UInt8.ofNat n < 0x80 := by
    rw [UInt8.lt_iff_toNat_lt, UInt8.toNat_ofNat']
    exact Nat.lt_of_le_of_lt (Nat.mod_le _ _) small
  have quotient : n / 256 = 0 := by omega
  have magnitude : Bytes.magnitudeLE n = [UInt8.ofNat n] := by
    rw [Bytes.magnitudeLE, if_neg (by omega), quotient, Bytes.magnitudeLE, if_pos rfl]
  have nonneg : ¬ (n : Int) < 0 := by omega
  simp [encode, Number.encodeBE, Bytes.magnitudeBE, magnitude, Number.withSignBit, digit, nonneg]

theorem encode_zero : encode 0 = [] := by
  simp [encode, Number.encodeBE, Bytes.magnitudeBE, Bytes.magnitudeLE, Number.withSignBit]

/-- Numbers with a code of their own are read back under every rule. -/
theorem operand_encode {n : Nat} (small : n ≤ 16) (minimal : Bool) :
    StackOp.operand minimal (encode (n : Int)) = .ok (n : Int) := by
  rcases Nat.eq_zero_or_pos n with rfl | pos
  · rw [Int.ofNat_zero, encode_zero]
    cases minimal <;> rfl
  · rw [encode_of_lt pos (by omega)]
    cases minimal <;> interval_cases n <;> rfl

end ScriptNumber

/-- The codes of the numbers from 1 to 16. -/
theorem number_code {n : Nat} (pos : 1 ≤ n) (small : n ≤ 16) :
    Opcode.pushData4 < Opcode.one + UInt8.ofNat n - 1 ∧
      Opcode.one + UInt8.ofNat n - 1 ≤ Opcode.sixteen ∧
      Opcode.one + UInt8.ofNat n - 1 = Opcode.one + UInt8.ofNat (n - 1) ∧
      Instruction.ofCode (Opcode.one + UInt8.ofNat n - 1) = .number n := by
  interval_cases n <;> exact ⟨by decide, by decide, by decide, rfl⟩

namespace Opcode

/-- The codes of the numbers from 1 on. -/
def IsNumber (code : UInt8) : Prop := one ≤ code ∧ code ≤ sixteen

theorem IsNumber.exists_number {code : UInt8} (isNumber : IsNumber code) :
    ∃ n : Nat, 1 ≤ n ∧ n ≤ 16 ∧ code = one + UInt8.ofNat n - 1 ∧ number? code = some (n : Int) := by
  have every : ∀ code : UInt8, one ≤ code → code ≤ sixteen →
      1 ≤ code.toNat - 80 ∧ code.toNat - 80 ≤ 16 ∧
        code = one + UInt8.ofNat (code.toNat - 80) - 1 ∧
        number? code = some ((code.toNat - 80 : Nat) : Int) := forall_byte (by decide +kernel)
  exact ⟨code.toNat - 80, every code isNumber.1 isNumber.2⟩

end Opcode

/-! ### Data -/

namespace Chunk

theorem pushCode_of_lt {length : Nat} (short : length < 76) :
    pushCode length < Opcode.pushData1 ∧ (pushCode length).toNat = length := by
  have fits : length % 2 ^ 8 = length := Nat.mod_eq_of_lt (by omega)
  rw [pushCode, if_pos short]
  constructor
  · rw [UInt8.lt_iff_toNat_lt, UInt8.toNat_ofNat', fits]
    exact short
  · rw [UInt8.toNat_ofNat', fits]

theorem wellFormed_ofData {data : Bytes} (fits : data.length < 2 ^ 32) :
    (ofData data).WellFormed := by
  unfold ofData
  by_cases direct : data.length < 76
  · obtain ⟨short, length⟩ := pushCode_of_lt direct
    exact .direct short length.symm
  · unfold pushCode
    rw [if_neg direct]
    split
    next one => exact .pushData1 one
    next =>
      split
      next two => exact .pushData2 two
      next => exact .pushData4 fits

theorem pushCode_le (length : Nat) : pushCode length ≤ Opcode.pushData4 := by
  by_cases direct : length < 76
  · have short := (pushCode_of_lt direct).1
    rw [UInt8.lt_iff_toNat_lt] at short
    rw [UInt8.le_iff_toNat_le]
    exact Nat.le_trans (Nat.le_of_lt short) (by decide)
  · unfold pushCode
    rw [if_neg direct]
    split
    · decide
    · split <;> decide

theorem isShortestPush_ofData {data : Bytes} (long : data.length ≠ 1) :
    (ofData data).isShortestPush = true := by
  rcases data with _ | ⟨b, _ | ⟨c, data⟩⟩
  · rfl
  · simp at long
  · simp [ofData, isShortestPush]

theorem encodedLength_ofData_le (data : Bytes) : (ofData data).encodedLength ≤ data.length + 5 := by
  have width : ∀ code : UInt8, (lengthWidth? code).getD 0 ≤ 4 := forall_byte (by decide +kernel)
  have field := width (pushCode data.length)
  rw [ofData, encodedLength]
  omega

end Chunk

namespace BuildStep

/-- Data is pushed as it is, but for the numbers from 1 to 16. -/
theorem dataChunk_cases (data : Bytes) :
    dataChunk data = .ofData data ∧ (∀ b, data = [b] → ¬ (1 ≤ b ∧ b ≤ 16)) ∨
      ∃ n : Nat, 1 ≤ n ∧ n ≤ 16 ∧ data = [UInt8.ofNat n] ∧
        dataChunk data = .op (Opcode.one + UInt8.ofNat n - 1) := by
  unfold dataChunk
  split
  next b =>
    split
    next number =>
      obtain ⟨pos, small⟩ := number
      rw [UInt8.le_iff_toNat_le] at pos small
      exact .inr ⟨b.toNat, pos, small, by rw [UInt8.ofNat_toNat], by rw [UInt8.ofNat_toNat]⟩
    next other =>
      refine .inl ⟨rfl, fun c same => ?_⟩
      cases same
      exact other
  next long => exact .inl ⟨rfl, fun b same => (long b same).elim⟩

theorem wellFormed_dataChunk {data : Bytes} (fits : data.length < 2 ^ 32) :
    (dataChunk data).WellFormed := by
  obtain ⟨same, -⟩ | ⟨n, pos, small, -, same⟩ := dataChunk_cases data
  · rw [same]
    exact Chunk.wellFormed_ofData fits
  · rw [same]
    exact .op (number_code pos small).1

theorem isPush_dataChunk (data : Bytes) : (dataChunk data).isPush = true := by
  obtain ⟨same, -⟩ | ⟨n, pos, small, -, same⟩ := dataChunk_cases data
  · have code := Chunk.pushCode_le data.length
    rw [UInt8.le_iff_toNat_le] at code
    rw [same, Chunk.isPush, decide_eq_true_eq, UInt8.le_iff_toNat_le]
    exact Nat.le_trans code (by decide)
  · rw [same, Chunk.isPush, decide_eq_true_eq]
    exact (number_code pos small).2.1

theorem encodedLength_dataChunk_le (data : Bytes) :
    (dataChunk data).encodedLength ≤ data.length + 5 := by
  obtain ⟨same, -⟩ | ⟨n, -, -, -, same⟩ := dataChunk_cases data
  · rw [same]
    exact Chunk.encodedLength_ofData_le data
  · rw [same, Chunk.encodedLength]
    omega

theorem length_le_encodedLength_dataChunk (data : Bytes) :
    data.length ≤ (dataChunk data).encodedLength := by
  obtain ⟨same, -⟩ | ⟨n, -, -, single, same⟩ := dataChunk_cases data
  · rw [same, Chunk.ofData, Chunk.encodedLength]
    omega
  · rw [same, single, Chunk.encodedLength, List.length_singleton]

theorem numberChunk_eq_dataChunk {n : Nat} (small : n ≤ 16) :
    numberChunk (n : Int) = dataChunk (ScriptNumber.encode (n : Int)) := by
  rcases Nat.eq_zero_or_pos n with rfl | pos
  · rw [Int.ofNat_zero, ScriptNumber.encode_zero]
    rfl
  · rw [ScriptNumber.encode_of_lt pos (by omega)]
    interval_cases n <;> rfl

theorem dataChunk_of_length_ne_one {data : Bytes} (long : data.length ≠ 1) :
    dataChunk data = .ofData data := by
  obtain ⟨same, -⟩ | ⟨n, -, -, single, -⟩ := dataChunk_cases data
  · exact same
  · simp [single] at long

theorem isShortestPush_dataChunk {data : Bytes} (long : data.length ≠ 1) :
    (dataChunk data).isShortestPush = true := by
  rw [dataChunk_of_length_ne_one long]
  exact Chunk.isShortestPush_ofData long

theorem dataChunk_hash160 (hash : Hash160) : dataChunk hash.val = .push 20 hash.val := by
  rw [dataChunk_of_length_ne_one (by rw [hash.property]; decide), Chunk.ofData, hash.property]
  rfl

end BuildStep

/-! ### Standard scripts -/

namespace Script

theorem payToScriptHash_eq (hash : Hash160) :
    payToScriptHash hash =
      assemble [.op Opcode.hash160, .push 20 hash.val, .op Opcode.equal] := by
  simp only [payToScriptHash, build, List.map_cons, List.map_nil, BuildStep.chunk,
    BuildStep.dataChunk_hash160]
  rfl

theorem program_payToScriptHash (hash : Hash160) :
    (payToScriptHash hash).program = Opcode.hash160 :: 20 :: (hash.val ++ [Opcode.equal]) := by
  rw [payToScriptHash_eq]
  simp [assemble, Chunk.encode, Chunk.lengthWidth?, Opcode.pushData1, Bytes.littleEndian]

/-- A row of built pushes is not much longer than the data. -/
theorem length_assemble_dataChunk_le {data : List Bytes} {bound : Nat}
    (small : ∀ bytes ∈ data, bytes.length ≤ bound) :
    (assemble (data.map BuildStep.dataChunk)).length ≤ data.length * (bound + 5) := by
  have each : ∀ size ∈ (data.map BuildStep.dataChunk).map Chunk.encodedLength,
      size ≤ bound + 5 := by
    intro size mem
    rw [List.map_map, List.mem_map] at mem
    obtain ⟨bytes, among, rfl⟩ := mem
    exact Nat.le_trans (BuildStep.encodedLength_dataChunk_le bytes)
      (Nat.add_le_add_right (small bytes among) 5)
  have total := List.sum_le_card_nsmul _ _ each
  rw [length_assemble]
  simpa using total

theorem isPushOnly_assemble_dataChunk (data : List Bytes) :
    (assemble (data.map BuildStep.dataChunk)).isPushOnly = true := by
  have chunks : (assemble (data.map BuildStep.dataChunk)).chunks.map (·.chunk) =
      data.map BuildStep.dataChunk := map_chunk_place 0 _
  have each : ∀ chunk ∈ data.map BuildStep.dataChunk, chunk.isPush = true := by
    intro chunk mem
    obtain ⟨bytes, -, rfl⟩ := List.mem_map.mp mem
    exact BuildStep.isPush_dataChunk bytes
  rw [← chunks] at each
  simpa [isPushOnly] using each

/-- The data that a script for many keys pushes before it checks them. -/
def multisigOperands (threshold : Nat) (keys : List Bytes) : List Bytes :=
  ScriptNumber.encode (threshold : Int) :: keys ++ [ScriptNumber.encode (keys.length : Int)]

def multisigChunks (threshold : Nat) (keys : List Bytes) : List Chunk :=
  (multisigOperands threshold keys).map BuildStep.dataChunk ++ [Chunk.op Opcode.checkMultiSig]

theorem multisig_eq {threshold : Nat} {keys : List Bytes} (required : threshold ≤ 16)
    (few : keys.length ≤ 16) :
    multisig threshold keys = assemble (multisigChunks threshold keys) := by
  have number {n : Nat} (small : n ≤ 16) :
      (BuildStep.number (Int64.ofNat n)).chunk =
        BuildStep.dataChunk (ScriptNumber.encode (n : Int)) := by
    have value : (Int64.ofNat n).toInt = n := Int64.toInt_ofNat_of_lt (by omega)
    rw [BuildStep.chunk, value, BuildStep.numberChunk_eq_dataChunk small]
  have check : (BuildStep.op Opcode.checkMultiSig).chunk = .op Opcode.checkMultiSig := rfl
  have data : keys.map (BuildStep.chunk ∘ BuildStep.data) = keys.map BuildStep.dataChunk := rfl
  simp only [multisig, build, multisigChunks, multisigOperands, List.map_cons, List.map_append,
    List.map_map, List.map_nil, List.cons_append, List.append_assoc, List.nil_append,
    number required, number few, check, data]

theorem multisigInput_eq (signatures : List Bytes) (redeem : Script) :
    multisigInput signatures redeem =
      assemble (([] :: signatures ++ [redeem.program]).map BuildStep.dataChunk) := by
  have data : signatures.map (BuildStep.chunk ∘ BuildStep.data) =
      signatures.map BuildStep.dataChunk := rfl
  simp only [multisigInput, build, List.map_cons, List.map_append, List.map_map, List.map_nil,
    BuildStep.chunk, data]

end Script

end TokenLedger
