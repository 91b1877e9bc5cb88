import Mathlib
import TokenLedger.Proofs.Transaction.LeastForm

/-!
# Transactions survive the wire

What the encoder writes, every decoder with room for the lists reads back, strict or not, whatever
stands before and behind.
-/

namespace TokenLedger.Transaction

variable {policy : CodecPolicy} {tx : Transaction}

theorem allowed_leastForm (sized : tx.Sized)
    (fits : TailFits tx.memo tx.dataClassName tx.data tx.dataSignature)
    (inputs : tx.inputs.length ≤ policy.maximumCount.toNat)
    (outputs : tx.outputs.length ≤ policy.maximumCount.toNat) :
    (tx.leastForm sized fits).Allowed policy where
  strict _ := isCanonical_of_mem_leastForm
  inputs := by
    rw [UInt64.le_iff_toNat_le, Counted.counts]
    simpa [leastForm, Counted.least] using inputs
  outputs := by
    rw [UInt64.le_iff_toNat_le, Counted.counts]
    simpa [leastForm, Counted.least] using outputs

/-- What the encoder writes is a form that the policy allows. -/
theorem exists_form_of_encode (sized : tx.Sized)
    (fits : TailFits tx.memo tx.dataClassName tx.data tx.dataSignature)
    (inputs : tx.inputs.length ≤ policy.maximumCount.toNat)
    (outputs : tx.outputs.length ≤ policy.maximumCount.toNat) :
    ∃ f : Form, f.Allowed policy ∧ f.bytes = tx.encode ∧ f.toTransaction = tx :=
  ⟨tx.leastForm sized fits, allowed_leastForm sized fits inputs outputs, bytes_leastForm _ _,
    toTransaction_leastForm _ _⟩

/-- Decoding undoes encoding wherever the bytes stand, and no two transactions have the same bytes.
The lists are no longer than the policy allows, and the optional fields have lengths of 32 bits;
that all other lengths are 64-bit numbers holds of whatever is in memory. -/
theorem decode_undoes_encode (policy : CodecPolicy) (tx : Transaction) (sized : tx.Sized)
    (fits : TailFits tx.memo tx.dataClassName tx.data tx.dataSignature)
    (inputs : tx.inputs.length ≤ policy.maximumCount.toNat)
    (outputs : tx.outputs.length ≤ policy.maximumCount.toNat) :
    (∀ before after : Bytes, decodeAt policy (before ++ tx.encode ++ after) before.length =
      .ok (tx, tx.encode.length)) ∧
    decode policy tx.encode = .ok tx ∧
    ∀ other : Transaction, other.Sized →
      TailFits other.memo other.dataClassName other.data other.dataSignature →
      other.encode = tx.encode → other = tx := by
  have form := exists_form_of_encode sized fits inputs outputs
  refine ⟨fun before after => ?_, ?_, fun other sized' fits' same => ?_⟩
  · have inside : before.length ≤ (before ++ tx.encode ++ after).length := by
      rw [List.append_assoc, List.length_append]
      exact Nat.le_add_right _ _
    refine ((read_accepts policy).decodeAt_eq_ok_iff inside).mpr ⟨tx.encode, after, form, ?_, rfl⟩
    rw [List.append_assoc, List.drop_left]
  · exact (read_accepts policy).decodeAll_eq_ok_iff.mpr form
  · rw [← bytes_leastForm sized' fits', ← bytes_leastForm sized fits] at same
    have forms := Form.selfDelimiting.injective trivial trivial same
    rw [← toTransaction_leastForm sized' fits', forms, toTransaction_leastForm]

/-- A payment of 200 units of a token with a memo, and with data that are there but empty. -/
def memoPayment : Transaction where
  version := 1
  inputs := [⟨⟨FixedBytes.zero 32, 7⟩, [0x51], 0⟩]
  outputs := [⟨200, [0xcc], [0x51]⟩]
  lockTime := 0
  memo := some "hi"
  dataClassName := none
  data := some []
  dataSignature := none

theorem decode_undoes_encode_memoPayment :
    let policy : CodecPolicy := ⟨.strict, 1⟩
    memoPayment.Sized ∧
    TailFits memoPayment.memo memoPayment.dataClassName memoPayment.data
      memoPayment.dataSignature ∧
    memoPayment.inputs.length ≤ policy.maximumCount.toNat ∧
    memoPayment.outputs.length ≤ policy.maximumCount.toNat ∧
    decodeAt policy ([0xaa] ++ memoPayment.encode ++ [0xbb]) 1 =
      .ok (memoPayment, memoPayment.encode.length) ∧
    decode policy memoPayment.encode = .ok memoPayment := by
  intro policy
  have sized : memoPayment.Sized := by
    refine ⟨by decide, by decide, ?_, ?_⟩
    · simp [memoPayment, Input.Sized]
    · intro output mem
      obtain rfl := List.mem_singleton.mp mem
      have value : Amount.encode 200 = [0, 200] := by cbv
      exact ⟨by rw [value]; decide, by decide, by decide⟩
  have fits : TailFits memoPayment.memo memoPayment.dataClassName memoPayment.data
      memoPayment.dataSignature := by
    have text : Utf8.encode "hi" = [0x68, 0x69] := by cbv
    refine ⟨?_, ?_, ?_, ?_⟩ <;> simp [memoPayment, OptionalTextFits, OptionalBytesFit, text]
  obtain ⟨anywhere, alone, -⟩ :=
    decode_undoes_encode policy memoPayment sized fits (by decide) (by decide)
  exact ⟨sized, fits, by decide, by decide, anywhere [0xaa] [0xbb], alone⟩

end TokenLedger.Transaction
