import Mathlib
import TokenLedger.Proofs.Transaction.LeastForm

/-!
# Byte-exact transactions

A decoded transaction is written back to the bytes it was read from exactly when these are its
least form. A wide integer or a wasteful amount anywhere is lost, and no two of them make up for
each other. The identifier of a transaction is the hash of what is written, so the other forms
are those that change on the wire and keep the identifier.
-/

namespace TokenLedger

/-- What is read from a form can be written again: no amount gets longer, but for an empty one. -/
theorem Output.Form.sized_toOutput (f : Output.Form) : f.toOutput.Sized where
  value := by
    have shorter := Amount.length_encode_ofBigEndian_le f.unsigned
    have bound := f.amount.length_lt
    simp only [toOutput]
    omega
  tokenId := f.tokenId.length_lt
  lockingScript := f.lockingScript.length_lt

theorem Output.Form.hasWrittenAmount_iff (f : Output.Form) :
    f.HasWrittenAmount ↔ f.amount.items ≠ [] ∧ Amount.HasNoRedundantZero f.amount.items := by
  rw [← Amount.encode_ofBigEndian_eq_iff f.unsigned]
  exact eq_comm

namespace Transaction

theorem Form.sized_toTransaction (f : Form) : f.toTransaction.Sized where
  inputCount := by
    rw [toTransaction, List.length_map]
    exact f.inputs.length_lt
  outputCount := by
    rw [toTransaction, List.length_map]
    exact f.outputs.length_lt
  inputs input mem := by
    obtain ⟨i, _, rfl⟩ := List.mem_map.mp mem
    exact i.unlockingScript.length_lt
  outputs output mem := by
    obtain ⟨o, _, rfl⟩ := List.mem_map.mp mem
    exact o.sized_toOutput

theorem Form.encode_toTransaction_eq_bytes_iff (f : Form) :
    f.toTransaction.encode = f.bytes ↔
      (∀ v ∈ f.varInts, v.isCanonical = true) ∧ ∀ o ∈ f.outputs.items, o.HasWrittenAmount := by
  constructor
  · intro rewritten
    have sized := f.sized_toTransaction
    have fits : TailFits f.toTransaction.memo f.toTransaction.dataClassName f.toTransaction.data
        f.toTransaction.dataSignature := f.fits
    rw [← bytes_leastForm sized fits] at rewritten
    have least := Form.selfDelimiting.injective trivial trivial rewritten
    rw [← least]
    exact ⟨isCanonical_of_mem_leastForm, fun _ => hasWrittenAmount_of_mem_leastForm⟩
  · rintro ⟨minimal, written⟩
    exact (bytes_of_isMinimal minimal written).symm

/-- Writing back what was read gives the same bytes exactly when every compact integer among them
has its least width and every amount its written bytes. The integers and amounts are those of the
only form that has these bytes; a strict reader leaves only the amounts open. -/
theorem reencoding_is_exact_iff (policy : CodecPolicy) (buffer : Bytes) (offset : Nat)
    (tx : Transaction) (consumed : Nat)
    (decoded : decodeAt policy buffer offset = .ok (tx, consumed)) :
    ∃ f : Form,
      f.bytes = (buffer.drop offset).take consumed ∧ f.bytes.length = consumed ∧
      (∀ other : Form, other.bytes = f.bytes → other = f) ∧ f.toTransaction = tx ∧
      (tx.encode = (buffer.drop offset).take consumed ↔
        (∀ v ∈ f.varInts, v.isCanonical = true) ∧
          ∀ o ∈ f.outputs.items, o.amount.items = Amount.encode o.toOutput.value) ∧
      (∀ o ∈ f.outputs.items, o.amount.items = Amount.encode o.toOutput.value ↔
        o.amount.items ≠ [] ∧ Amount.HasNoRedundantZero o.amount.items) ∧
      (policy.strictness = .strict → ∀ v ∈ f.varInts, v.isCanonical = true) := by
  have inside := (read_needsByte policy).le_of_decodeAt decoded
  obtain ⟨_, rest, ⟨f, allowed, rfl, rfl⟩, found, rfl⟩ :=
    ((read_accepts policy).decodeAt_eq_ok_iff inside).mp decoded
  have slice : (buffer.drop offset).take f.bytes.length = f.bytes := by
    rw [found, List.take_left]
  rw [slice]
  exact ⟨f, rfl, rfl, fun _ same => Form.selfDelimiting.injective trivial trivial same, rfl,
    f.encode_toTransaction_eq_bytes_iff, fun o _ => o.hasWrittenAmount_iff, allowed.strict⟩

/-- A byte, and a payment of 5 with a zero byte before the amount and a number of inputs that is
two bytes too wide. -/
def wastefulBuffer : Bytes :=
  [0xee, 1, 0, 0, 0, 0xfd, 0, 0, 1, 2, 0, 5, 0, 0, 0, 0, 0, 0, 0, 0, 0, 0]

def wastefulPayment : Transaction where
  version := 1
  inputs := []
  outputs := [⟨5, [], []⟩]
  lockTime := 0
  memo := none
  dataClassName := none
  data := none
  dataSignature := none

theorem reencoding_is_exact_iff_wastefulPayment :
    decodeAt {} wastefulBuffer 1 = .ok (wastefulPayment, 21) ∧
    wastefulPayment.encode ≠ (wastefulBuffer.drop 1).take 21 ∧
    ∃ f : Form, f.bytes = (wastefulBuffer.drop 1).take 21 ∧ f.toTransaction = wastefulPayment ∧
      ¬ ((∀ v ∈ f.varInts, v.isCanonical = true) ∧
        ∀ o ∈ f.outputs.items, o.amount.items = Amount.encode o.toOutput.value) := by
  have decoded : decodeAt {} wastefulBuffer 1 = .ok (wastefulPayment, 21) := by cbv
  have shorter : wastefulPayment.encode ≠ (wastefulBuffer.drop 1).take 21 := by
    have written : wastefulPayment.encode =
        [1, 0, 0, 0, 0, 1, 1, 5, 0, 0, 0, 0, 0, 0, 0, 0, 0, 0] := by cbv
    rw [written]
    decide
  obtain ⟨f, bytes, -, -, value, exact_iff, -, -⟩ :=
    reencoding_is_exact_iff {} wastefulBuffer 1 wastefulPayment 21 decoded
  exact ⟨decoded, shorter, f, bytes, value, fun least => shorter (exact_iff.mpr least)⟩

end Transaction

end TokenLedger
