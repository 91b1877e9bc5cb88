import Mathlib
import TokenLedger.Proofs.Machine.Execution
import TokenLedger.Proofs.SignatureHash.Commitment
import TokenLedger.Proofs.Spend.Verdict

/-!
# The unlocking scripts that a transaction carries

Scripts learn about the transaction that they are executed for only what signatures and lock times
are checked on, and no unlocking script is part of that. So a spend may be signed before any of the
unlocking scripts is filled in, and in any order of the inputs: two machines that agree on
signatures and lock times run in lockstep, failures included.
-/

namespace TokenLedger

/-! ### Agreement of two machines -/

/-- The two execute one script under the same rules, and check signatures and lock times alike. -/
structure Environment.Agrees (env env' : Environment) : Prop where
  script : env.script = env'.script
  flags : env.flags = env'.flags
  signatures : env.checkSignature = env'.checkSignature
  lockTimes : env.checkLockTime = env'.checkLockTime

namespace Machine

variable {env env' : Environment}

theorem checkRecorded_congr (agrees : env.Agrees env') :
    checkRecorded env = checkRecorded env' := by
  funext connected signature key s
  simp only [checkRecorded, agrees.signatures]

theorem connectedScript_congr (agrees : env.Agrees env') :
    connectedScript env = connectedScript env' := by
  funext separator signatures
  simp only [connectedScript, agrees.script]

theorem checkSig_congr (agrees : env.Agrees env') : checkSig env = checkSig env' := by
  funext s
  simp only [checkSig, checkRecorded_congr agrees, connectedScript_congr agrees]

theorem popCount_congr (agrees : env.Agrees env') : popCount env = popCount env' := by
  funext maximum cause
  simp only [popCount, agrees.flags]

theorem matchOperands_congr (agrees : env.Agrees env') :
    matchOperands env = matchOperands env' := by
  funext signatures keys separator
  simp only [matchOperands, checkRecorded_congr agrees, connectedScript_congr agrees, agrees.flags]

theorem checkMultiSig_congr (agrees : env.Agrees env') :
    checkMultiSig env = checkMultiSig env' := by
  simp only [checkMultiSig, popCount_congr agrees, matchOperands_congr agrees]

theorem execute_congr (agrees : env.Agrees env') (code : UInt8) (offset : Nat)
    (instruction : Instruction) :
    execute env code offset instruction = execute env' code offset instruction := by
  cases instruction with
  | checkSig verify => simp only [execute, checkSig_congr agrees]
  | checkMultiSig verify => simp only [execute, checkMultiSig_congr agrees]
  | checkLockTime => simp only [execute, agrees.flags, agrees.lockTimes]
  | stack op => simp only [execute, agrees.flags]
  | reservedNop => simp only [execute, agrees.flags]
  | _ => rfl

theorem step_congr (agrees : env.Agrees env') (c : PlacedChunk) : step env c = step env' c := by
  cases chunk : c.chunk with
  | push code data => simp only [step, chunk, stepPush, agrees.flags]
  | op code => simp only [step, chunk, stepCode, execute_congr agrees]

theorem steps_congr (agrees : env.Agrees env') (chunks : List PlacedChunk) :
    steps env chunks = steps env' chunks := by
  induction chunks with
  | nil => rfl
  | cons c chunks ih =>
    unfold steps
    rw [step_congr agrees, ih]

theorem run_congr (agrees : env.Agrees env') : run env = run env' := by
  unfold run
  rw [agrees.script, steps_congr agrees]

end Machine

/-! ### Transactions that differ in unlocking scripts -/

/-- The transaction before any unlocking script is filled in. -/
def Transaction.unsigned (tx : Transaction) : Transaction :=
  { tx with inputs := tx.inputs.map fun input => { input with unlockingScript := [] } }

variable {tx tx' : Transaction}

namespace Transaction

theorem outlines_of_unsigned (same : tx.unsigned = tx'.unsigned) :
    tx.inputs.map SignatureHash.outline = tx'.inputs.map SignatureHash.outline := by
  have outlines (tx : Transaction) :
      tx.unsigned.inputs.map SignatureHash.outline = tx.inputs.map SignatureHash.outline := by
    rw [unsigned, List.map_map]
    rfl
  rw [← outlines tx, same, outlines tx']

theorem eq_of_unsigned (same : tx.unsigned = tx'.unsigned) :
    tx = { tx' with inputs := tx.inputs } := by
  obtain ⟨version, inputs, outputs, lockTime, memo, className, data, signature⟩ := tx
  simp only [unsigned, mk.injEq] at same
  obtain ⟨rfl, -, rfl, rfl, rfl, rfl, rfl, rfl⟩ := same
  rfl

theorem lockTime_of_unsigned (same : tx.unsigned = tx'.unsigned) : tx.lockTime = tx'.lockTime := by
  rw [eq_of_unsigned same]

theorem length_inputs_of_unsigned (same : tx.unsigned = tx'.unsigned) :
    tx.inputs.length = tx'.inputs.length := by
  simpa using congrArg List.length (outlines_of_unsigned same)

end Transaction

theorem SignatureHash.digest_of_unsigned (same : tx.unsigned = tx'.unsigned) (index : Nat)
    (script : Script) (hashType : HashType) :
    digest tx index script hashType = digest tx' index script hashType := by
  rw [Transaction.eq_of_unsigned same]
  exact digest_of_outlines (Transaction.outlines_of_unsigned same) index script hashType

namespace Environment

variable {index : Nat} {script : Script} {flags : Flags}

theorem checkSignature_of_unsigned (same : tx.unsigned = tx'.unsigned) :
    checkSignature ⟨some ⟨tx, index⟩, script, flags⟩ =
      checkSignature ⟨some ⟨tx', index⟩, script, flags⟩ := by
  funext connected signature key
  simp only [checkSignature, SignatureHash.digest_of_unsigned same]
  rfl

/-- A lock time is checked against that of the transaction and one of its sequence numbers. -/
theorem checkLockTime_of_unsigned (same : tx.unsigned = tx'.unsigned) :
    checkLockTime ⟨some ⟨tx, index⟩, script, flags⟩ =
      checkLockTime ⟨some ⟨tx', index⟩, script, flags⟩ := by
  have outlines : (tx.inputs.map SignatureHash.outline)[index]? =
      (tx'.inputs.map SignatureHash.outline)[index]? := by
    rw [Transaction.outlines_of_unsigned same]
  rw [List.getElem?_map, List.getElem?_map] at outlines
  funext stack
  cases stack with
  | nil => rfl
  | cons top rest =>
    simp only [checkLockTime, Transaction.lockTime_of_unsigned same]
    cases there : tx.inputs[index]? with
    | none =>
      rw [there] at outlines
      rw [Option.map_eq_none_iff.mp outlines.symm]
    | some input =>
      rw [there] at outlines
      obtain ⟨input', there', outline⟩ := Option.map_eq_some_iff.mp outlines.symm
      have final : input'.isFinal = input.isFinal := by
        rw [Input.isFinal, Input.isFinal, (Prod.mk.inj outline).2]
      simp only [there', final]

theorem agrees_of_unsigned (same : tx.unsigned = tx'.unsigned) :
    Agrees ⟨some ⟨tx, index⟩, script, flags⟩ ⟨some ⟨tx', index⟩, script, flags⟩ where
  script := rfl
  flags := rfl
  signatures := checkSignature_of_unsigned same
  lockTimes := checkLockTime_of_unsigned same

end Environment

theorem Script.execute_of_unsigned (same : tx.unsigned = tx'.unsigned) (script : Script)
    (index : Nat) (flags : Flags) (stack : Stack) :
    script.execute (some ⟨tx, index⟩) flags stack =
      script.execute (some ⟨tx', index⟩) flags stack := by
  unfold execute
  rw [Machine.run_congr (Environment.agrees_of_unsigned same)]

namespace Spend

theorem verify_of_unsigned (same : tx.unsigned = tx'.unsigned) (unlocking locking : Script)
    (index : Nat) (flags : Flags) :
    verify unlocking tx index locking flags = verify unlocking tx' index locking flags := by
  simp only [verify, runRedeem, Script.execute_of_unsigned same,
    Transaction.length_inputs_of_unsigned same]

/-- Two transactions that differ only in the unlocking scripts of their inputs get the same verdict
on every spend and the same run of every script, down to the error and the state it ends in. -/
theorem verdict_ignores_stored_scripts (tx tx' : Transaction)
    (same : tx.unsigned = tx'.unsigned) (index : Nat) (flags : Flags) :
    (∀ unlocking locking : Script,
      verify unlocking tx index locking flags = verify unlocking tx' index locking flags) ∧
    (∀ (script : Script) (stack : Stack),
      script.execute (some ⟨tx, index⟩) flags stack =
        script.execute (some ⟨tx', index⟩) flags stack) ∧
    ∀ (script : Script) (s : State),
      Machine.run ⟨some ⟨tx, index⟩, script, flags⟩ s =
        Machine.run ⟨some ⟨tx', index⟩, script, flags⟩ s := by
  refine ⟨?_, ?_, ?_⟩
  · intro unlocking locking
    exact verify_of_unsigned same unlocking locking index flags
  · intro script stack
    exact Script.execute_of_unsigned same script index flags stack
  · intro script s
    rw [Machine.run_congr (Environment.agrees_of_unsigned same)]

/-- A lock time holds and a signature of all inputs is accepted, whichever of the two inputs carries
a script. -/
theorem verdict_ignores_stored_scripts_pairPayment :
    let unlocked : Transaction :=
      { SignatureHash.pairPayment with
        inputs := [⟨⟨FixedBytes.zero 32, 0⟩, [], 5⟩, ⟨⟨FixedBytes.zero 32, 1⟩, [0x6a], 6⟩] }
    let signature : Bytes := (signatureOfNonceOne
      0x4818529760deb18d34ddf5560c994536478e54aa445ad8cc29e4ee133203f925).encode
    let locking := Script.assemble [.push Opcode.empty [], .op Opcode.checkLockTimeVerify,
      .op Opcode.drop, .push 71 signature, .push 33 firstKey, .op Opcode.checkSig]
    let flags := Flags.ofList [.checkLockTime]
    unlocked ≠ SignatureHash.pairPayment ∧
      unlocked.unsigned = SignatureHash.pairPayment.unsigned ∧
      verify (.assemble []) SignatureHash.pairPayment 1 locking flags = .ok () ∧
      verify (.assemble []) unlocked 1 locking flags = .ok () ∧
      locking.execute (some ⟨unlocked, 1⟩) flags [] = .ok [[1]] := by
  intro unlocked signature locking flags
  have different : unlocked ≠ SignatureHash.pairPayment := by decide
  have same : unlocked.unsigned = SignatureHash.pairPayment.unsigned := by decide
  let front : List Chunk := [.push Opcode.empty [], .op Opcode.checkLockTimeVerify,
    .op Opcode.drop, .push 71 signature, .push 33 firstKey]
  let env : Environment := ⟨some ⟨SignatureHash.pairPayment, 1⟩, locking, flags⟩
  let pushed : State := { stack := [firstKey, signature], operations := 2 }
  have placed : locking.chunks = Script.place 0 front ++ [⟨.op Opcode.checkSig, 109⟩] := by cbv
  have reached : Machine.steps env (Script.place 0 front) { stack := [] } = .ok () pushed := by cbv
  let connected := Script.assemble [.push Opcode.empty [], .op Opcode.checkLockTimeVerify,
    .op Opcode.drop, .push 33 firstKey, .op Opcode.checkSig]
  have stripped : Machine.connectedScript env 0 [signature] = connected := by cbv
  let digest : Hash256 := ⟨Bytes.bigEndian 32
    0x3e2946e9a54492c67581a81424dfafc170848b613d1f9e963bfaef1e873a3084, by decide⟩
  have digested : SignatureHash.digest SignatureHash.pairPayment 1 connected ⟨0x01⟩ =
      .ok digest := SignatureHash.digest_of_hashed (by decide) (by decide +kernel)
  have accepted : env.checkSignature connected signature firstKey = .ok true :=
    Environment.checkSignature_encode rfl (by decide) (by decide) decode_firstKey digested
      (by decide +kernel)
  have left : locking.execute (some ⟨SignatureHash.pairPayment, 1⟩) flags [] = .ok [[1]] := by
    let final : State :=
      { stack := [[1]], operations := 3, checks := [⟨signature, firstKey, .ok true⟩] }
    refine Script.execute_eq_ok_iff.mpr ⟨final, ?_, rfl, rfl⟩
    rw [placed, Machine.steps_append_of_ok reached]
    rw [← stripped] at accepted
    exact (Machine.steps_checkSig_cons_iff (by decide) rfl rfl).mpr
      ⟨by decide, firstKey, signature, [], true, rfl, accepted, fun _ => rfl, by decide, rfl⟩
  have authorized : verify (.assemble []) SignatureHash.pairPayment 1 locking flags = .ok () := by
    have plain : locking.isScriptHash = false :=
      Script.isScriptHash_of_start (show _ = some Opcode.empty from rfl) (by decide)
    exact (verify_eq_ok_iff_of_plain plain).mpr ⟨by decide, by decide, by decide +kernel,
      fun _ => rfl, _, _, rfl, left, rfl, fun _ _ => rfl⟩
  obtain ⟨verdicts, runs, -⟩ :=
    verdict_ignores_stored_scripts unlocked SignatureHash.pairPayment same 1 flags
  exact ⟨different, same, authorized, (verdicts _ _).trans authorized, (runs _ _).trans left⟩

end Spend

end TokenLedger
