import Mathlib
import TokenLedger.Proofs.Machine.Execution
import TokenLedger.Proofs.Machine.Limits
import TokenLedger.Proofs.Spend.MultiSig

/-!
# Paying to a key hash

An output that pays to a key hash is spent by a key with that hash and a signature for it, whatever
lies below them on the stack and however they got there. The script duplicates, hashes and compares
on the way, for which it needs room for two elements more.
-/

namespace TokenLedger

namespace Script

variable {hash : Hash160}

/-- The chunks of a script that pays to a key hash. -/
def keyHashChunks (hash : Hash160) : List Chunk :=
  [.op Opcode.dup, .op Opcode.hash160, BuildStep.dataChunk hash.val, .op Opcode.equalVerify,
    .op Opcode.checkSig]

theorem payToKeyHash_eq : payToKeyHash hash = assemble (keyHashChunks hash) := rfl

theorem wellFormed_keyHashChunks : ∀ chunk ∈ keyHashChunks hash, chunk.WellFormed := by
  have hashFits : hash.val.length < 2 ^ 32 := by
    rw [hash.property]
    decide
  simp only [keyHashChunks, List.forall_mem_cons, List.not_mem_nil, false_implies, implies_true,
    and_true]
  exact ⟨.op (by decide), .op (by decide), BuildStep.wellFormed_dataChunk hashFits,
    .op (by decide), .op (by decide)⟩

theorem length_payToKeyHash : (payToKeyHash hash).length = 25 := by
  rw [payToKeyHash_eq, length_assemble, keyHashChunks, BuildStep.dataChunk_hash160]
  simp [Chunk.encodedLength, Chunk.lengthWidth?, Opcode.pushData1, hash.property]

theorem isScriptHash_payToKeyHash : (payToKeyHash hash).isScriptHash = false :=
  isScriptHash_of_start (show _ = some Opcode.dup from rfl) (by decide)

/-- The chunks of the script on a stack with a key on top. -/
theorem steps_keyHashChunks_iff {env : Environment} {key : Bytes} {below : Stack}
    {s : State} (matching : Hash.hash160 key = hash) :
    Machine.steps env (place 0 (keyHashChunks hash)) { stack := key :: below } = .ok () s ↔
      below.length + 3 ≤ Limits.stackSize ∧
      ∃ signature rest accepted, below = signature :: rest ∧
        env.checkSignature (Machine.connectedScript env 0 [signature]) signature key =
          .ok accepted ∧
        s = { stack := ScriptNumber.ofBool accepted :: rest, operations := 4
              checks := [⟨signature, key, .ok accepted⟩] } := by
  have small : hash.val.length ≤ Limits.elementSize := by
    rw [hash.property]
    decide
  have shortest : (BuildStep.dataChunk hash.val).isShortestPush = true :=
    BuildStep.isShortestPush_dataChunk (by rw [hash.property]; decide)
  have equal : StackOp.equalVerify.apply env.flags.requiresMinimal
      (hash.val :: (Hash.hash160 key).val :: key :: below) = .ok (key :: below) :=
    if_pos (congrArg Subtype.val matching.symm)
  rw [keyHashChunks]
  simp only [place]
  rw [Machine.steps_stackOp_cons_iff (by decide) rfl rfl rfl,
    Machine.steps_stackOp_cons_iff (by decide) rfl rfl rfl,
    Machine.steps_dataChunk_cons_iff rfl,
    Machine.steps_stackOp_cons_iff (by decide) rfl rfl equal,
    Machine.steps_checkSig_cons_iff (by decide) rfl rfl]
  simp only [Machine.steps_nil_eq_ok_iff, List.length_cons, List.length_nil, Limits.stackSize,
    Limits.operations]
  constructor
  · rintro ⟨-, -, -, -, -, -, room, -, -, -, _, signature, rest, accepted, ⟨⟩, verdict, -, -, rfl⟩
    exact ⟨room, signature, rest, accepted, rfl, verdict, rfl⟩
  · rintro ⟨room, signature, rest, accepted, rfl, verdict, rfl⟩
    simp only [List.length_cons] at room ⊢
    refine ⟨by decide, by omega, by decide, by omega, small, fun _ => shortest, by omega, by decide,
      by omega, by decide, key, signature, rest, accepted, rfl, verdict, by simp, ?_, rfl⟩
    simp
    omega

/-- Another key ends the run at the comparison. -/
theorem steps_keyHashChunks_ne_ok {env : Environment} {key : Bytes} {below : Stack} {s : State}
    (other : Hash.hash160 key ≠ hash) :
    ¬ Machine.steps env (place 0 (keyHashChunks hash)) { stack := key :: below } = .ok () s := by
  have unequal : StackOp.equalVerify.apply env.flags.requiresMinimal
      (hash.val :: (Hash.hash160 key).val :: key :: below) =
        .error (.evaluation .equalVerifyFailed) :=
    if_neg fun same => other (Subtype.ext same.symm)
  rw [keyHashChunks]
  simp only [place]
  rw [Machine.steps_stackOp_cons_iff (by decide) rfl rfl rfl,
    Machine.steps_stackOp_cons_iff (by decide) rfl rfl rfl,
    Machine.steps_dataChunk_cons_iff rfl]
  rintro ⟨-, -, -, -, -, -, -, compared⟩
  exact Machine.steps_stackOp_cons_ne_ok (by decide) rfl rfl unequal compared

/-- The script replaces a key with the hash, and the signature below it, by the verdict on them. -/
theorem execute_payToKeyHash_eq_ok_iff {context : Option SpendContext} {flags : Flags}
    {stack final : Stack} :
    (payToKeyHash hash).execute context flags stack = .ok final ↔
      ∃ key signature rest accepted, stack = key :: signature :: rest ∧
        stack.length + 2 ≤ Limits.stackSize ∧ Hash.hash160 key = hash ∧
        Environment.checkSignature ⟨context, payToKeyHash hash, flags⟩
          (Machine.connectedScript ⟨context, payToKeyHash hash, flags⟩ 0 [signature])
          signature key = .ok accepted ∧
        final = ScriptNumber.ofBool accepted :: rest := by
  have chunks : (payToKeyHash hash).chunks = place 0 (keyHashChunks hash) := rfl
  rw [execute_eq_ok_iff, chunks]
  constructor
  · rintro ⟨s, ran, -, rfl⟩
    rcases stack with _ | ⟨key, below⟩
    · exact absurd ran (Machine.steps_stackOp_cons_ne_ok (by decide) rfl rfl rfl)
    by_cases matching : Hash.hash160 key = hash
    · obtain ⟨room, signature, rest, accepted, rfl, verdict, rfl⟩ :=
        (steps_keyHashChunks_iff matching).mp ran
      exact ⟨key, signature, rest, accepted, rfl, room, matching, verdict, rfl⟩
    · exact absurd ran (steps_keyHashChunks_ne_ok matching)
  · rintro ⟨key, signature, rest, accepted, rfl, room, matching, verdict, rfl⟩
    exact ⟨_, (steps_keyHashChunks_iff matching).mpr
      ⟨room, signature, rest, accepted, rfl, verdict, rfl⟩, rfl, rfl⟩

end Script

namespace Spend

/-- An output that pays to a key hash is spent exactly by a key with the hash and, below it, a
signature that passes every check for the key. The signature commits to the script without pushes of
the signature, of which there is one if the signature is the hash. -/
theorem spends_keyHash_iff {unlocking : Script} {tx : Transaction} {index : Nat} {flags : Flags}
    {hash : Hash160} (small : unlocking.length ≤ 10000) (inRange : index < tx.inputs.length) :
    let locking := Script.payToKeyHash hash
    let stripped (signature : Bytes) := Script.assemble
      ((locking.chunks.map (·.chunk)).filter (· ≠ Chunk.ofData signature))
    verify unlocking tx index locking flags = .ok () ↔
      (flags.has .pushOnly = true → ∀ c ∈ unlocking.chunks, c.code ≤ Opcode.sixteen) ∧
      ∃ stack key signature rest,
        unlocking.execute (some ⟨tx, index⟩) flags [] = .ok stack ∧
        2 ≤ stack.length ∧ stack.length ≤ 998 ∧
        (flags.has .cleanStack = true → flags.has .scriptHash = true → stack.length = 2) ∧
        stack = key :: signature :: rest ∧ Hash.hash160 key = hash ∧
        Environment.PassesCheck flags ⟨tx, index⟩ (stripped signature) signature key := by
  intro locking stripped
  have lockingSmall : locking.length ≤ Limits.scriptSize := by
    rw [Script.length_payToKeyHash]
    decide
  have plain : locking.isScriptHash = false := Script.isScriptHash_payToKeyHash
  -- what the unlocking script left is short enough for its pushes to be removed
  have accepts {key signature : Bytes} {rest : Stack}
      (unlocked : unlocking.execute (some ⟨tx, index⟩) flags [] = .ok (key :: signature :: rest)) :
      Environment.checkSignature ⟨some ⟨tx, index⟩, locking, flags⟩
          (Machine.connectedScript ⟨some ⟨tx, index⟩, locking, flags⟩ 0 [signature])
          signature key = .ok true ↔
        Environment.PassesCheck flags ⟨tx, index⟩ (stripped signature) signature key := by
    have short := (Script.withinLimits_of_execute_nil unlocked).2 signature (by simp)
    exact Machine.checkSignature_single_iff rfl Script.payToKeyHash_eq
      Script.wellFormed_keyHashChunks short
  have locked {stack final : Stack} :
      locking.execute (some ⟨tx, index⟩) flags stack = .ok final ↔ _ :=
    Script.execute_payToKeyHash_eq_ok_iff
  simp only [verify_eq_ok_iff_of_plain plain, locked, Script.isPushOnly_iff]
  constructor
  · rintro ⟨-, -, -, pushes, _, _, unlocked,
      ⟨key, signature, rest, accepted, rfl, room, matching, verdict, rfl⟩, good, clean⟩
    rw [Stack.isTrue_ofBool_cons] at good
    subst good
    refine ⟨pushes, _, key, signature, rest, unlocked, ?_, ?_, ?_, rfl, matching,
      (accepts unlocked).mp verdict⟩
    · simp
    · unfold Limits.stackSize at room
      omega
    · intro cleaned redeems
      simpa using clean redeems cleaned
  · rintro ⟨pushes, _, key, signature, rest, unlocked, -, room, clean, rfl, matching, passes⟩
    refine ⟨inRange, small, lockingSmall, pushes, _, _, unlocked,
      ⟨key, signature, rest, true, rfl, ?_, matching, (accepts unlocked).mpr passes, rfl⟩,
      Stack.isTrue_ofBool_cons _ _, ?_⟩
    · unfold Limits.stackSize
      omega
    · intro redeems cleaned
      simpa using clean cleaned redeems

/-- The holder spends with a signature of the digest that stands for a missing output, which does
not depend on any script, under all rules on scripts. -/
theorem spends_keyHash_iff_holder :
    let hash := Hash.hash160 holderKey
    let unlocking := Script.keyHashInput holderSignature holderKey
    let flags := Flags.ofList [.scriptHash, .strictEncoding, .strictDer, .lowS, .pushOnly,
      .minimalData, .cleanStack]
    unlocking.length ≤ 10000 ∧ 0 < plainSpend.inputs.length ∧
      verify unlocking plainSpend 0 (Script.payToKeyHash hash) flags = .ok () := by
  intro hash unlocking flags
  have small : unlocking.length ≤ 10000 := by decide +kernel
  have inRange : 0 < plainSpend.inputs.length := by decide
  have digest (script : Script) :
      SignatureHash.digest plainSpend 0 script ⟨0x03⟩ = .ok SignatureHash.withoutOutput := by cbv
  have unlocked : unlocking.execute (some ⟨plainSpend, 0⟩) flags [] =
      .ok [holderKey, holderSignature] := by cbv
  refine ⟨small, inRange, (spends_keyHash_iff small inRange).mpr
    ⟨fun _ => by decide +kernel, _, holderKey, holderSignature, [], unlocked, by decide, by decide,
      fun _ _ => rfl, rfl, rfl, ?_⟩⟩
  exact
    { layout := fun _ _ => by cbv
      hashType := fun _ _ => by cbv
      plainKey := fun _ => by cbv
      verifies := holder_signs _ digest _ }

end Spend

end TokenLedger
