import TokenLedger.Proofs.Transaction.LeastForm
import TokenLedger.SignatureHash

/-!
# The bytes of a view

A view is told from its bytes, although they are no transaction: a blank output has the amount of
none, because its sign is set.
-/

namespace TokenLedger

namespace SignedView

/-- Every length is a length of the wire. -/
structure Sized (view : SignedView) : Prop where
  inputCount : view.inputs.length < 2 ^ 64
  outputCount : view.outputs.length < 2 ^ 64
  inputs : ∀ input ∈ view.inputs, input.Sized
  outputs : ∀ place ∈ view.outputs, ∀ output ∈ place, output.Sized
  tail : TailFits view.memo view.dataClassName view.data view.dataSignature

theorem encodeParts_selfDelimiting :
    SelfDelimiting
      (fun parts : Bytes × Bytes × Bytes =>
        parts.1.length < 2 ^ 64 ∧ parts.2.1.length < 2 ^ 64 ∧ parts.2.2.length < 2 ^ 64)
      fun parts => Output.encodeParts parts.1 parts.2.1 parts.2.2 := by
  rintro ⟨value, tokenId, script⟩ ⟨value', tokenId', script'⟩ ⟨fits, fits', fits''⟩
    ⟨sized, sized', sized''⟩ r s same
  simp only [Output.encodeParts, List.append_assoc] at same
  obtain ⟨rfl, fromTokenId⟩ := encodeVarBytes_selfDelimiting fits sized same
  obtain ⟨rfl, fromScript⟩ := encodeVarBytes_selfDelimiting fits' sized' fromTokenId
  obtain ⟨rfl, back⟩ := encodeVarBytes_selfDelimiting fits'' sized'' fromScript
  exact ⟨rfl, back⟩

/-- The output that three byte strings are the parts of; a blank one if they start with no
amount. -/
def outputOfParts (parts : Bytes × Bytes × Bytes) : Option Output :=
  match Amount.decode 0 parts.1 with
  | .ok value => some ⟨value, parts.2.1, parts.2.2⟩
  | .error _ => none

theorem encodeOutput_selfDelimiting :
    SelfDelimiting (fun place : Option Output => ∀ output ∈ place, output.Sized) encodeOutput := by
  refine encodeParts_selfDelimiting.of_forms outputOfParts fun place sized => ?_
  cases place with
  | none => exact ⟨([0xff], [], []), by decide, rfl, rfl⟩
  | some output =>
    obtain ⟨value, tokenId, script⟩ := sized output rfl
    refine ⟨(Amount.encode output.value, output.tokenId, output.lockingScript),
      ⟨value, tokenId, script⟩, rfl, ?_⟩
    rw [outputOfParts, Amount.decode_encode]

theorem encode_selfDelimiting : SelfDelimiting Sized encode := by
  rintro ⟨version, inputs, outputs, lockTime, memo, className, data, signature, ⟨byte⟩⟩
    ⟨version', inputs', outputs', lockTime', memo', className', data', signature', ⟨byte'⟩⟩
    sized sized' r s same
  simp only [encode, List.append_assoc] at same
  obtain ⟨rfl, fromInputs⟩ := encodeUInt32_selfDelimiting trivial trivial same
  obtain ⟨rfl, fromOutputs⟩ := Input.encode_selfDelimiting.counted sized.inputCount
    sized'.inputCount sized.inputs sized'.inputs fromInputs
  obtain ⟨rfl, fromLockTime⟩ := encodeOutput_selfDelimiting.counted sized.outputCount
    sized'.outputCount sized.outputs sized'.outputs fromOutputs
  obtain ⟨rfl, fromTail⟩ := encodeUInt32_selfDelimiting trivial trivial fromLockTime
  obtain ⟨⟨rfl, rfl, rfl, rfl⟩, fromHashType⟩ := sized.tail.delimits sized'.tail fromTail
  obtain ⟨widened, back⟩ := encodeUInt32_selfDelimiting trivial trivial fromHashType
  obtain rfl := UInt8.toUInt32_inj.mp widened
  exact ⟨rfl, back⟩

end SignedView

namespace SignatureHash

/-- The bytes that are hashed; none if there is no output for a signature of a single one. -/
def preimage? (tx : Transaction) (index : Nat) (script : Script) (hashType : HashType) :
    Option Bytes :=
  (SignedView.ofTransaction? tx index script hashType).map SignedView.encode

/-- The digest is that of the bytes of the view, where there is one. -/
theorem digest_of_preimage {tx : Transaction} {index : Nat} {script : Script}
    {hashType : HashType} {bytes : Bytes} (inRange : index < tx.inputs.length)
    (hashed : preimage? tx index script hashType = some bytes) :
    digest tx index script hashType = .ok (Hash.sha256d bytes) := by
  obtain ⟨view, found, rfl⟩ := Option.map_eq_some_iff.mp hashed
  rw [digest, if_neg (Nat.not_le.mpr inRange), found]

theorem digest_of_hashed {tx : Transaction} {index : Nat} {script : Script}
    {hashType : HashType} {hash : Hash256} (inRange : index < tx.inputs.length)
    (hashed : (preimage? tx index script hashType).map Hash.sha256d = some hash) :
    digest tx index script hashType = .ok hash := by
  obtain ⟨bytes, viewed, rfl⟩ := Option.map_eq_some_iff.mp hashed
  exact digest_of_preimage inRange viewed

end SignatureHash

end TokenLedger
