import Mathlib
import TokenLedger.Proofs.Transaction.Exactness
import TokenLedger.Proofs.Wire.Cuts

/-!
# Transactions stand for themselves

What is decoded depends on its own bytes alone, and these end where they say themselves. A stream of
transactions can be cut up without looking ahead, and a transaction that has not arrived as a whole
is known as such.
-/

namespace TokenLedger

theorem Input.read_delimited (strictness : Strictness) : (Input.read strictness).Delimited := by
  apply (readFixed_delimited _ 32).bind
  intro transaction
  apply (readNumber_delimited _).bind
  intro index
  apply (readVarBytes_delimited strictness _).bind
  intro unlockingScript
  exact (readNumber_delimited _).bind fun _ => .pure _

/-- A negative amount is only found out once all of its bytes are there. -/
theorem Output.read_delimited (strictness : Strictness) : (Output.read strictness).Delimited := by
  apply ReadM.Delimited.bind_get
  · intro c d same
    simp only [same]
  · intro start
    apply (readVarBytes_delimited strictness _).bind
    intro valueBytes
    have behind (value : Nat) : ReadM.Delimited (do
        let tokenId ← readVarBytes strictness "output.token_id"
        let lockingScript ← readVarBytes strictness "output.script_pubkey"
        return ({ value, tokenId, lockingScript } : Output)) :=
      (readVarBytes_delimited strictness _).bind fun _ =>
        (readVarBytes_delimited strictness _).bind fun _ => .pure _
    split
    next value _ => exact (ReadM.Delimited.pure value).bind behind
    next => exact (ReadM.Delimited.throw _).bind behind

namespace Transaction

theorem read_delimited (policy : CodecPolicy) : (read policy).Delimited := by
  apply (readNumber_delimited _).bind
  intro version
  apply (readCount_delimited _ _ _).bind
  intro inputCount
  apply (readMany_delimited (Input.read_delimited _) inputCount).bind
  intro inputs
  apply (readCount_delimited _ _ _).bind
  intro outputCount
  apply (readMany_delimited (Output.read_delimited _) outputCount).bind
  intro outputs
  apply (readNumber_delimited _).bind
  intro lockTime
  apply (readOptionalText_delimited _).bind
  intro memo
  apply (readOptionalText_delimited _).bind
  intro dataClassName
  apply (readOptionalBytes_delimited _).bind
  intro data
  exact (readOptionalBytes_delimited _).bind fun _ => .pure _

/-- Transactions and outputs are decoded from their own bytes alone, whatever the policy: the same
bytes give the same result anywhere, and cut short anywhere they are reported as cut short. No
proper part of the bytes of a transaction from their start on is a transaction. -/
theorem decoding_is_local_and_prefix_free (buffer : Bytes) (offset : Nat) :
    (∀ (policy : CodecPolicy) (tx : Transaction) (taken : Nat),
      decodeAt policy buffer offset = .ok (tx, taken) →
        IsLocal (decodeAt policy) buffer offset tx taken) ∧
    (∀ (output : Output) (taken : Nat), Output.decodeAt buffer offset = .ok (output, taken) →
      IsLocal Output.decodeAt buffer offset output taken) ∧
    ∀ (policy : CodecPolicy) (tx : Transaction), decode policy buffer = .ok tx →
      ∀ k < buffer.length, ∀ other : Transaction, decode policy (buffer.take k) ≠ .ok other := by
  refine ⟨?_, ?_, ?_⟩
  · intro policy tx taken decoded
    exact (read_delimited policy).isLocal (read_accepts policy) (read_needsByte policy) decoded
  · intro output taken decoded
    exact (Output.read_delimited .lenient).isLocal (Output.read_accepts .lenient)
      (Output.read_needsByte .lenient) decoded
  · intro policy tx decoded k cut other whole
    have accepts := read_accepts policy
    have takes := (read_delimited policy).takes accepts (accepts.decodeAll_eq_ok_iff.mp decoded) 0
    obtain ⟨_, _, _, _, failed, -⟩ := takes.short (buffer.take k) (buffer.drop k)
      (List.take_append_drop k buffer) (by rw [Ne, List.drop_eq_nil_iff]; omega)
    have front : Cursor.ofBuffer (buffer.take k) 0 = ⟨0, buffer.take k, 0⟩ := by
      rw [Cursor.ofBuffer, Nat.zero_sub, List.drop_zero]
    rw [decode, ReadM.decodeAll, front, failed] at whole
    cases whole

/-- The wasteful payment and its output. -/
theorem decoding_is_local_and_prefix_free_wastefulPayment :
    decodeAt {} wastefulBuffer 1 = .ok (wastefulPayment, 21) ∧
    IsLocal (decodeAt {}) wastefulBuffer 1 wastefulPayment 21 ∧
    Output.decodeAt wastefulBuffer 9 = .ok (⟨5, [], []⟩, 5) ∧
    IsLocal Output.decodeAt wastefulBuffer 9 ⟨5, [], []⟩ 5 ∧
    decode {} (wastefulBuffer.drop 1) = .ok wastefulPayment ∧
    ∀ other, decode {} ((wastefulBuffer.drop 1).take 20) ≠ .ok other := by
  have decoded : decodeAt {} wastefulBuffer 1 = .ok (wastefulPayment, 21) := by cbv
  have decodedOutput : Output.decodeAt wastefulBuffer 9 = .ok (⟨5, [], []⟩, 5) := by cbv
  have whole : decode {} (wastefulBuffer.drop 1) = .ok wastefulPayment := by cbv
  obtain ⟨transactions, -, -⟩ := decoding_is_local_and_prefix_free wastefulBuffer 1
  obtain ⟨-, outputs, -⟩ := decoding_is_local_and_prefix_free wastefulBuffer 9
  obtain ⟨-, -, parts⟩ := decoding_is_local_and_prefix_free (wastefulBuffer.drop 1) 0
  exact ⟨decoded, transactions _ _ _ decoded, decodedOutput, outputs _ _ decodedOutput, whole,
    parts _ _ whole 20 (by decide)⟩

end Transaction

end TokenLedger
