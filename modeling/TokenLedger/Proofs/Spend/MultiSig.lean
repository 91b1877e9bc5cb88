import Mathlib
import TokenLedger.Proofs.Machine.MultiSig
import TokenLedger.Proofs.Machine.Pushes
import TokenLedger.Proofs.Spend.ScriptHash

/-!
# Spending an output of many keys

An output that pays to the hash of a script for many keys is spent by the script itself and by
signatures in the order of their keys. The script has been built, hashed, pushed, parsed again and
executed by then, and the signatures have been removed from it: none of this gets in the way.
-/

namespace TokenLedger

open List (SublistForall₂)

namespace Script

variable {threshold : Nat} {keys signatures : List Bytes}

/-- Everything that a script for many keys pushes fits into the script. -/
theorem length_le_of_mem_multisigOperands {bytes : Bytes} (required : threshold ≤ 16)
    (few : keys.length ≤ 16) (mem : bytes ∈ multisigOperands threshold keys) :
    bytes.length ≤ (multisig threshold keys).length := by
  have among : (BuildStep.dataChunk bytes).encodedLength ∈
      (multisigChunks threshold keys).map Chunk.encodedLength :=
    List.mem_map_of_mem (List.mem_append_left _ (List.mem_map_of_mem mem))
  have part := List.le_sum_of_mem among
  have whole := BuildStep.length_le_encodedLength_dataChunk bytes
  rw [multisig_eq required few, length_assemble]
  omega

/-- The chunks of a script for many keys are those that the parser finds in it. -/
theorem wellFormed_multisigChunks
    (small : ∀ bytes ∈ multisigOperands threshold keys, bytes.length ≤ Limits.elementSize) :
    ∀ chunk ∈ multisigChunks threshold keys, chunk.WellFormed := by
  intro chunk mem
  rcases List.mem_append.mp mem with built | last
  · obtain ⟨bytes, among, rfl⟩ := List.mem_map.mp built
    have short := small bytes among
    exact BuildStep.wellFormed_dataChunk (by unfold Limits.elementSize at short; omega)
  · rw [List.mem_singleton.mp last]
    exact .op (by decide)

section

variable (required : threshold ≤ 16) (few : keys.length ≤ 16)

include required few

theorem chunks_multisig :
    (multisig threshold keys).chunks.map (·.chunk) = multisigChunks threshold keys := by
  rw [multisig_eq required few]
  exact map_chunk_place 0 _

variable (small : (multisig threshold keys).length ≤ Limits.elementSize)

include small

theorem wellFormed_chunks_multisig : ∀ chunk ∈ multisigChunks threshold keys, chunk.WellFormed :=
  wellFormed_multisigChunks fun _ mem =>
    Nat.le_trans (length_le_of_mem_multisigOperands required few mem) small

/-- The parser reads a script for many keys back. -/
theorem parse_multisig :
    parse (multisig threshold keys).program = .ok (multisig threshold keys) := by
  rw [multisig_eq required few]
  exact parse_assemble (wellFormed_chunks_multisig required few small)

end

end Script

/-! ### Executing the redeem script -/

namespace Machine

variable {env : Environment} {threshold : Nat} {keys signatures : List Bytes}

/-- The state in which a script for many keys checks the signatures. -/
def checkingState (threshold : Nat) (keys signatures : List Bytes) : State :=
  { stack := (Script.multisigOperands threshold keys).reverse ++ (signatures.reverse ++ [[]]) }

theorem steps_multisigOperands (few : keys.length ≤ 16) (enough : signatures.length ≤ keys.length)
    (small : ∀ bytes ∈ Script.multisigOperands threshold keys, bytes.length ≤ Limits.elementSize)
    (free : env.flags.requiresMinimal = false) :
    steps env (Script.place 0 ((Script.multisigOperands threshold keys).map BuildStep.dataChunk))
        { stack := signatures.reverse ++ [[]] } =
      .ok () (checkingState threshold keys signatures) := by
  refine steps_place_dataChunk rfl small (fun minimal => ?_) ?_
  · rw [free] at minimal
    cases minimal
  · simp only [Script.multisigOperands, List.length_append, List.length_reverse, List.length_cons,
      List.length_nil, Limits.stackSize]
    omega

/-- As many signatures as the script asks for, and its keys. -/
def checkingOperands (keys signatures : List Bytes) : MultiSigOperands where
  signatures := signatures
  keys := keys
  signatureCount := ScriptNumber.encode (signatures.length : Int)
  keyCount := ScriptNumber.encode (keys.length : Int)
  dummy := []

theorem multiSigCall_checkingState (few : keys.length ≤ 16)
    (enough : signatures.length ≤ keys.length) :
    MultiSigCall env (checkingState signatures.length keys signatures)
      (checkingOperands keys signatures) [] where
  stack := by simp [checkingState, checkingOperands, Script.multisigOperands]
  countsKeys := ScriptNumber.operand_encode few _
  countsSignatures := ScriptNumber.operand_encode (Nat.le_trans enough few) _
  keysInRange := Nat.le_trans few (by decide)
  enoughKeys := enough
  budget := by
    simp only [checkingState, checkingOperands, Limits.operations]
    omega
  dummyEmpty := fun _ => rfl

end Machine

namespace Script

variable {keys signatures : List Bytes}

/-- On as many signatures as it asks for, a script for many keys leaves whether they can be matched
with keys in order. -/
theorem execute_multisig {context : SpendContext} {flags : Flags} (few : keys.length ≤ 16)
    (enough : signatures.length ≤ keys.length)
    (small : (multisig signatures.length keys).length ≤ Limits.elementSize)
    (fit : ∀ signature ∈ signatures, signature.length < 2 ^ 32)
    (lax : flags.requiresCanonical = false) (free : flags.requiresMinimal = false)
    (inRange : context.inputIndex < context.tx.inputs.length) :
    let redeem := multisig signatures.length keys
    let stripped := assemble
      ((multisigChunks signatures.length keys).filter (· ∉ signatures.map Chunk.ofData))
    ∃ accepted : Bool,
      (accepted = true ↔ SublistForall₂
        (Accepts (Environment.checkSignature ⟨some context, redeem, flags⟩ stripped))
        signatures keys) ∧
      redeem.execute (some context) flags (signatures.reverse ++ [[]]) =
        .ok [ScriptNumber.ofBool accepted] := by
  intro redeem stripped
  let env : Environment := ⟨some context, redeem, flags⟩
  let operands := multisigOperands signatures.length keys
  have built : redeem = assemble (multisigChunks signatures.length keys) :=
    multisig_eq (Nat.le_trans enough few) few
  have smallOperands : ∀ bytes ∈ operands, bytes.length ≤ Limits.elementSize := fun bytes mem =>
    Nat.le_trans (length_le_of_mem_multisigOperands (Nat.le_trans enough few) few mem) small
  have fitReversed : ∀ signature ∈ signatures.reverse, signature.length < 2 ^ 32 :=
    fun signature mem => fit signature (List.mem_reverse.mp mem)
  have connected : Machine.connectedScript env 0 signatures.reverse = stripped := by
    have whole : env.script = assemble ([] ++ multisigChunks signatures.length keys) := built
    have behind := Machine.connectedScript_assemble whole
      (wellFormed_multisigChunks smallOperands) fitReversed
    simp only [List.map_reverse, List.mem_reverse] at behind
    exact behind
  have valid : env.ValidContext := by
    rintro _ ⟨⟩
    exact inRange
  have call : Machine.MultiSigCall env (Machine.checkingState signatures.length keys signatures)
      (Machine.checkingOperands keys signatures) [] :=
    Machine.multiSigCall_checkingState few enough
  obtain ⟨accepted, decided, matched⟩ := Environment.exists_matchInOrder_eq_ok lax valid stripped
    signatures.reverse keys.reverse
  obtain ⟨made, -, decides, -⟩ := Machine.stepCode_checkMultiSig_of_call call rfl
    (0 + ((operands.map BuildStep.dataChunk).map Chunk.encodedLength).sum)
  refine ⟨accepted, matched.trans sublistForall₂_reverse_iff, ?_⟩
  rw [← connected] at decided
  have pushed : Machine.steps env (place 0 (operands.map BuildStep.dataChunk))
      { stack := signatures.reverse ++ [[]] } =
        .ok () (Machine.checkingState signatures.length keys signatures) :=
    Machine.steps_multisigOperands few enough smallOperands free
  have checked := decides accepted decided
  have room : 1 ≤ Limits.stackSize := by decide
  have chunks : redeem.chunks = place 0 (operands.map BuildStep.dataChunk) ++
      place (0 + ((operands.map BuildStep.dataChunk).map Chunk.encodedLength).sum)
        [.op Opcode.checkMultiSig] := by
    rw [built, ← place_append]
    rfl
  rw [execute_eq_ok_iff, chunks]
  exact ⟨_, Machine.steps_append_eq_ok_iff.mpr ⟨_, pushed, Machine.steps_cons_eq_ok_iff.mpr
    ⟨_, Machine.step_op_eq_ok_iff.mpr ⟨checked, room⟩, rfl⟩⟩, rfl, rfl⟩

/-! ### Executing the unlocking script -/

section

variable {redeem : Script} (few : signatures.length ≤ 16)
  (short : ∀ signature ∈ signatures, signature.length ≤ Limits.elementSize)
  (small : redeem.length ≤ Limits.elementSize)

include short small in
theorem length_le_of_mem_multisigInput :
    ∀ bytes ∈ [] :: signatures ++ [redeem.program], bytes.length ≤ Limits.elementSize := by
  intro bytes mem
  simp only [List.cons_append, List.mem_cons, List.mem_append, List.not_mem_nil, or_false] at mem
  rcases mem with rfl | among | rfl
  · exact Nat.zero_le _
  · exact short bytes among
  · exact small

include few short small in
theorem length_multisigInput_le :
    (multisigInput signatures redeem).length ≤ Limits.scriptSize := by
  have bound := length_assemble_dataChunk_le (length_le_of_mem_multisigInput short small)
  rw [multisigInput_eq]
  simp only [List.length_append, List.length_cons, List.length_nil, Limits.elementSize,
    Limits.scriptSize] at bound ⊢
  omega

include few short small in
/-- The redeem script comes to lie on top of the signatures. -/
theorem execute_multisigInput {context : Option SpendContext} {flags : Flags}
    (free : flags.requiresMinimal = false) :
    (multisigInput signatures redeem).execute context flags [] =
      .ok (redeem.program :: (signatures.reverse ++ [[]])) := by
  have ran : (assemble (([] :: signatures ++ [redeem.program]).map
      BuildStep.dataChunk)).execute context flags [] =
        .ok (([] :: signatures ++ [redeem.program]).reverse ++ []) := by
    refine execute_assemble_dataChunk (length_le_of_mem_multisigInput short small) ?_ ?_
    · intro minimal
      rw [free] at minimal
      cases minimal
    · simp only [List.length_append, List.length_cons, List.length_nil, Limits.stackSize]
      omega
  rw [multisigInput_eq, ran]
  simp

end

end Script

/-! ### The spend -/

namespace Spend

/-- Where the redeem script leaves one element on the signatures, the verdict is on that. -/
theorem verify_multisigInput {redeem : Script} {signatures : List Bytes} {tx : Transaction}
    {index : Nat} {left : Bytes} (inRange : index < tx.inputs.length)
    (few : signatures.length ≤ 16)
    (short : ∀ signature ∈ signatures, signature.length ≤ Limits.elementSize)
    (small : redeem.length ≤ Limits.elementSize)
    (parsed : Script.parse redeem.program = .ok redeem)
    (ran : redeem.execute (some ⟨tx, index⟩) .standard (signatures.reverse ++ [[]]) =
      .ok [left]) :
    verify (Script.multisigInput signatures redeem) tx index (Script.payToScript redeem)
      .standard = requireTrue [left] := by
  have pushes : (Script.multisigInput signatures redeem).isPushOnly = true := by
    rw [Script.multisigInput_eq]
    exact Script.isPushOnly_assemble_dataChunk _
  have room : (signatures.reverse ++ [[]]).length + 1 < Limits.stackSize := by
    simp only [List.length_append, List.length_reverse, List.length_cons, List.length_nil,
      Limits.stackSize]
    omega
  exact verify_scriptHash_of_runs inRange (Script.length_multisigInput_le few short small)
    (by decide) pushes (Script.execute_multisigInput few short small (by decide)) room parsed ran

/-- Spending the output of a redeem script for many keys succeeds exactly when the signatures match
a part of the keys, both in the order of the scripts, and otherwise leaves false. Signatures are
read leniently, and each is one of the redeem script without any of them. -/
theorem multisig_spend_decides_matching {threshold : Nat} {keys signatures : List Bytes}
    {tx : Transaction} {index : Nat} (required : threshold ≤ keys.length)
    (few : keys.length ≤ 16) (small : (Script.multisig threshold keys).length ≤ 520)
    (count : signatures.length = threshold)
    (short : ∀ signature ∈ signatures, signature.length ≤ 520)
    (inRange : index < tx.inputs.length) :
    let redeem := Script.multisig threshold keys
    let stripped := Script.assemble
      ((redeem.chunks.map (·.chunk)).filter (· ∉ signatures.map Chunk.ofData))
    let accepts (signature key : Bytes) : Prop :=
      ∃ decoded publicKey digest,
        TransactionSignature.decode false false signature = .ok decoded ∧
        PublicKey.decode? key = some publicKey ∧
        SignatureHash.digestOfProgram tx index stripped.program decoded.hashType = .ok digest ∧
        Ecdsa.verify publicKey digest decoded.ecdsa = true
    let verdict := verify (Script.multisigInput signatures redeem) tx index
      (Script.payToScript redeem) .standard
    (verdict = .ok () ↔
      ∃ chosen : List Bytes, chosen.Sublist keys ∧ List.Forall₂ accepts signatures chosen) ∧
    (verdict ≠ .ok () → verdict = .error (.evaluation .evaluatedToFalse)) := by
  intro redeem stripped accepts verdict
  subst count
  have fewSignatures := Nat.le_trans required few
  have fit : ∀ signature ∈ signatures, signature.length < 2 ^ 32 := fun signature mem =>
    Nat.lt_of_le_of_lt (short signature mem) (by decide)
  have chunks : redeem.chunks.map (·.chunk) = Script.multisigChunks signatures.length keys :=
    Script.chunks_multisig fewSignatures few
  have parsed : Script.parse stripped.program = .ok stripped :=
    Script.parse_assemble fun chunk mem => by
      rw [chunks] at mem
      exact Script.wellFormed_chunks_multisig fewSignatures few small chunk
        (List.mem_filter.mp mem).1
  have lax : Flags.standard.requiresCanonical = false := by decide
  have high : Flags.standard.has .lowS = false := by decide
  have free : Flags.standard.requiresMinimal = false := by decide
  obtain ⟨accepted, decision, ran⟩ := Script.execute_multisig few required small fit lax free
    (show (⟨tx, index⟩ : SpendContext).inputIndex < tx.inputs.length from inRange)
  have concluded : verdict = requireTrue [ScriptNumber.ofBool accepted] :=
    verify_multisigInput inRange fewSignatures short small
      (Script.parse_multisig fewSignatures few small) ran
  have same (signature key : Bytes) :
      Accepts (Environment.checkSignature ⟨some ⟨tx, index⟩, redeem, .standard⟩ stripped)
        signature key ↔ accepts signature key := by
    rw [Accepts, Environment.checkSignature_of_lax_eq_ok_true_iff rfl lax high parsed]
  have matching : SublistForall₂
      (Accepts (Environment.checkSignature ⟨some ⟨tx, index⟩, redeem, .standard⟩ stripped))
        signatures keys ↔
      ∃ chosen : List Bytes, chosen.Sublist keys ∧ List.Forall₂ accepts signatures chosen := by
    rw [List.sublistForall₂_iff]
    simp only [and_comm, funext₂ fun g k => propext (same g k)]
  rw [← chunks] at decision
  rw [concluded, ← matching, ← decision]
  cases accepted with
  | true =>
    have good : requireTrue [ScriptNumber.ofBool true] = .ok () := rfl
    simp [good]
  | false =>
    have bad : requireTrue [ScriptNumber.ofBool false] = .error (.evaluation .evaluatedToFalse) :=
      rfl
    simp [bad]

/-- The coordinates of the key of a holder. -/
def holderX : Nat := 0x110a04ca80732d12698bb9d7c74c92816089d26e313d165a062b5584fba729e7

def holderY : Nat := 0x128ae06dea889e3f24cbd82d7331e7c54e738deb2d4a34eca3bdbd54a28c37a6

theorem onCurve_holder : Secp256k1.OnCurve holderX holderY := by decide +kernel

/-- The key of the holder with both coordinates. -/
def holderKey : Bytes := 0x04 :: (Bytes.bigEndian 32 holderX ++ Bytes.bigEndian 32 holderY)

/-- The signature of the holder of the digest one, both numbers of which are 2^247. It is of a
single output where there is none. -/
def holderSignature : Bytes :=
  let scalar : Bytes := [0x02, 32, 0, 0x80] ++ List.replicate 30 0
  [0x30, 68] ++ scalar ++ scalar ++ [0x03]

/-- The signature is the holder's wherever its output is missing, whatever the script says. -/
theorem holder_signs {tx : Transaction} {index : Nat} (lowS : Bool)
    (missing : ∀ script, SignatureHash.digest tx index script ⟨0x03⟩ =
      .ok SignatureHash.withoutOutput) (script : Script) :
    ∃ decoded publicKey digest,
      TransactionSignature.decode false lowS holderSignature = .ok decoded ∧
      PublicKey.decode? holderKey = some publicKey ∧
      SignatureHash.digest tx index script decoded.hashType = .ok digest ∧
      Ecdsa.verify publicKey digest decoded.ecdsa = true := by
  let scalar := Secp256k1.Scalar.ofNat (2 ^ 247)
  have decoded : TransactionSignature.decode false lowS holderSignature =
      .ok ⟨⟨scalar, scalar⟩, ⟨0x03⟩⟩ := by
    cases lowS <;> cbv
  have key : PublicKey.decode? holderKey = some ⟨holderX, holderY, onCurve_holder⟩ := by cbv
  have verified : Ecdsa.verify ⟨holderX, holderY, onCurve_holder⟩ SignatureHash.withoutOutput
      ⟨scalar, scalar⟩ = true := by decide +kernel
  exact ⟨_, _, _, decoded, key, missing script, verified⟩

/-- One of two keys signs, where the other one is built into the code of a number. -/
theorem multisig_spend_decides_matching_holder :
    let keys : List Bytes := [[7], holderKey]
    let redeem := Script.multisig 1 keys
    1 ≤ keys.length ∧ keys.length ≤ 16 ∧ redeem.length ≤ 520 ∧
      (∀ signature ∈ [holderSignature], signature.length ≤ 520) ∧ 0 < plainSpend.inputs.length ∧
      verify (Script.multisigInput [holderSignature] redeem) plainSpend 0
        (Script.payToScript redeem) .standard = .ok () := by
  intro keys redeem
  have small : redeem.length ≤ 520 := by decide +kernel
  have short : ∀ signature ∈ [holderSignature], signature.length ≤ 520 := by decide
  have inRange : 0 < plainSpend.inputs.length := by decide
  let scalar := Secp256k1.Scalar.ofNat (2 ^ 247)
  have decoded : TransactionSignature.decode false false holderSignature =
      .ok ⟨⟨scalar, scalar⟩, ⟨0x03⟩⟩ := by cbv
  have key : PublicKey.decode? holderKey = some ⟨holderX, holderY, onCurve_holder⟩ := by cbv
  have verified : Ecdsa.verify ⟨holderX, holderY, onCurve_holder⟩ SignatureHash.withoutOutput
      ⟨scalar, scalar⟩ = true := by decide +kernel
  obtain ⟨decides, -⟩ := multisig_spend_decides_matching (show 1 ≤ keys.length by decide)
    (by decide) small rfl short inRange
  refine ⟨by decide, by decide, small, short, inRange,
    decides.mpr ⟨[holderKey], by simp [keys], ?_⟩⟩
  refine .cons ⟨_, _, _, decoded, key, ?_, verified⟩ .nil
  cbv

end Spend

end TokenLedger
