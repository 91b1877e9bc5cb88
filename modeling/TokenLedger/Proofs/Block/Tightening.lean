import Mathlib
import TokenLedger.Block.Codec
import TokenLedger.Proofs.Transaction.Exactness
import TokenLedger.Proofs.Wire.Tightening

/-!
# Policies that reject more

Nodes choose for themselves how strictly they read the wire. A node with tighter rules may reject
what another one accepts, but two nodes never read the same bytes as different transactions or
blocks, and each failure that only one of them sees is a rejection.
-/

namespace TokenLedger

/-- Whatever the first policy accepts is accepted by the second one. -/
structure CodecPolicy.TighterThan (policy looser : CodecPolicy) : Prop where
  strictness : policy.strictness.TighterThan looser.strictness
  maximumCount : policy.maximumCount ≤ looser.maximumCount

/-- The bytes are rejected as they stand, or the transactions of a block are. -/
inductive Error.IsMalformed : Error → Prop where
  | decode {cause : DecodeError} (malformed : cause.IsMalformed) : IsMalformed (.decode cause)
  | malformedBlock (offset : Nat) (reason : BlockFault) :
      IsMalformed (.malformedBlock offset reason)

variable {policy looser : CodecPolicy}

theorem Input.read_tightens {strictness looser : Strictness}
    (tighter : strictness.TighterThan looser) :
    (Input.read strictness).Tightens (Input.read looser) := by
  apply (ReadM.Tightens.refl _).bind
  intro transaction
  apply (ReadM.Tightens.refl _).bind
  intro index
  exact (readVarBytes_tightens tighter _).bind fun _ => .refl _

theorem Output.read_tightens {strictness looser : Strictness}
    (tighter : strictness.TighterThan looser) :
    (Output.read strictness).Tightens (Output.read looser) := by
  apply ReadM.Tightens.bind_get
  intro start
  apply (readVarBytes_tightens tighter _).bind
  intro valueBytes
  have behind (value : Nat) : ReadM.Tightens
      (do
        let tokenId ← readVarBytes strictness "output.token_id"
        let lockingScript ← readVarBytes strictness "output.script_pubkey"
        return ({ value, tokenId, lockingScript } : Output))
      (do
        let tokenId ← readVarBytes looser "output.token_id"
        let lockingScript ← readVarBytes looser "output.script_pubkey"
        return ({ value, tokenId, lockingScript } : Output)) :=
    (readVarBytes_tightens tighter _).bind fun _ =>
      (readVarBytes_tightens tighter _).bind fun _ => .refl _
  cases Amount.decode start.position valueBytes with
  | ok value => exact (ReadM.Tightens.refl _).bind behind
  | error e => exact (ReadM.Tightens.refl _).bind behind

/-- Behind the outputs nothing depends on the policy. -/
theorem Transaction.read_tightens (tighter : policy.TighterThan looser) :
    (Transaction.read policy).Tightens (Transaction.read looser) := by
  obtain ⟨strictness, fewer⟩ := tighter
  apply (ReadM.Tightens.refl _).bind
  intro version
  apply (readCount_tightens strictness fewer _).bind
  intro inputCount
  apply (readMany_tightens (Input.read_tightens strictness) inputCount).bind
  intro inputs
  apply (readCount_tightens strictness fewer _).bind
  intro outputCount
  exact (readMany_tightens (Output.read_tightens strictness) outputCount).bind fun _ => .refl _

namespace Block

/-- A transaction that only the tighter policy rejects is reported as one that could not be read. -/
theorem decodeTransactions_narrows (tighter : policy.TighterThan looser) (index left : Nat)
    (c : Cursor) :
    Narrows Error.IsMalformed (decodeTransactions policy index left c)
      (decodeTransactions looser index left c) := by
  induction left generalizing index c with
  | zero => exact .inl rfl
  | succ left ih =>
    unfold decodeTransactions
    rcases Transaction.read_tightens tighter c with same | ⟨e, stop, -, rejected⟩
    · rw [same]
      cases Transaction.read looser c with
      | error cause stop => exact .inl rfl
      | ok tx c =>
        rcases ih (index + 1) c with further | ⟨e, malformed, rejected⟩
        · exact .inl (congrArg (Except.map (tx :: ·)) further)
        · exact .inr ⟨e, malformed, except_map_eq_error.mpr rejected⟩
    · rw [rejected]
      exact .inr ⟨_, .malformedBlock _ _, rfl⟩

theorem decode_narrows (tighter : policy.TighterThan looser) (buffer : Bytes) :
    Narrows Error.IsMalformed (decode policy buffer) (decode looser buffer) := by
  have opening : ReadM.Tightens
      (do
        let header ← Header.read
        let count ← readCount policy.strictness policy.maximumCount "block.tx_count"
        return (header, count))
      (do
        let header ← Header.read
        let count ← readCount looser.strictness looser.maximumCount "block.tx_count"
        return (header, count)) := by
    apply (ReadM.Tightens.refl _).bind
    intro header
    exact (readCount_tightens tighter.strictness tighter.maximumCount _).bind fun _ => .refl _
  unfold decode
  dsimp only
  rcases opening (.ofBuffer buffer 0) with same | ⟨e, stop, malformed, rejected⟩
  · rw [same]
    split
    next => exact .inl rfl
    next header count c _ =>
      rcases decodeTransactions_narrows tighter 0 count c with further | ⟨e, malformed, rejected⟩
      · rw [further]
        exact .inl rfl
      · rw [rejected]
        exact .inr ⟨e, malformed, rfl⟩
  · rw [rejected]
    exact .inr ⟨_, .decode malformed, rfl⟩

/-- What is accepted under a policy is accepted under any looser one, with the same result; and any
other outcome is the same too unless the tighter policy rejects the bytes as malformed. -/
theorem tighter_policies_only_reject (tighter : policy.TighterThan looser) (buffer : Bytes) :
    (∀ offset, Narrows DecodeError.IsMalformed (Transaction.decodeAt policy buffer offset)
        (Transaction.decodeAt looser buffer offset) ∧
      ∀ tx taken, Transaction.decodeAt policy buffer offset = .ok (tx, taken) →
        Transaction.decodeAt looser buffer offset = .ok (tx, taken)) ∧
    (Narrows DecodeError.IsMalformed (Transaction.decode policy buffer)
        (Transaction.decode looser buffer) ∧
      ∀ tx, Transaction.decode policy buffer = .ok tx →
        Transaction.decode looser buffer = .ok tx) ∧
    Narrows Error.IsMalformed (decode policy buffer) (decode looser buffer) ∧
      ∀ block, decode policy buffer = .ok block → decode looser buffer = .ok block := by
  have reads := Transaction.read_tightens tighter
  have whole := reads.decodeAll "transaction" buffer
  have blocks := decode_narrows tighter buffer
  refine ⟨fun offset => ?_, ⟨whole, fun tx => whole.eq_ok⟩, blocks, fun block => blocks.eq_ok⟩
  have part := reads.decodeAt buffer offset
  exact ⟨part, fun tx taken => part.eq_ok⟩

/-- A node that is strict and takes one element at most refuses the wasteful payment, and reads its
least form as everybody does. -/
theorem tighter_policies_only_reject_wastefulPayment :
    let strict : CodecPolicy := { strictness := .strict, maximumCount := 1 }
    strict.TighterThan {} ∧
    Transaction.decodeAt {} Transaction.wastefulBuffer 1 = .ok (Transaction.wastefulPayment, 21) ∧
    Transaction.decodeAt strict Transaction.wastefulBuffer 1 =
      .error (.malformed "tx.input_count" 5 (.wideVarInt 0 3)) ∧
    Transaction.decodeAt {} Transaction.wastefulPayment.encode 0 =
      .ok (Transaction.wastefulPayment, 18) := by
  intro strict
  have tighter : strict.TighterThan {} := ⟨.inl rfl, by decide⟩
  have accepted : Transaction.decodeAt strict Transaction.wastefulPayment.encode 0 =
      .ok (Transaction.wastefulPayment, 18) := by cbv
  obtain ⟨parts, -, -⟩ := tighter_policies_only_reject tighter Transaction.wastefulPayment.encode
  exact ⟨tighter, by cbv, by cbv, (parts 0).2 _ _ accepted⟩

end Block

end TokenLedger
