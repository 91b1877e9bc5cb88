import Mathlib
import TokenLedger.Proofs.Machine.Execution
import TokenLedger.Proofs.Machine.SignedBytes
import TokenLedger.Proofs.Script.Recognition
import TokenLedger.Proofs.Spend.MultiSig

/-!
# Recognised scripts and the signatures that they ask for

Recognisers look at the chunks of a locking script, and the machine takes what they have pushed from
its stack. Whoever spends an output with a script that asks for so many signatures had as many of
them accepted, each for a key of its own among those that the recogniser finds.
-/

namespace TokenLedger

namespace Machine

variable {env : Environment} {s s' : State}

/-- So many signatures were accepted, for keys at different places of the list. -/
structure SignedBy (env : Environment) (count : Nat) (keys : List Bytes)
    (checks : List SignatureCheck) : Prop where
  accepted : checks.countP (·.accepted) = count
  keys : ((checks.filter (·.accepted)).map (·.key)).Sublist keys
  /-- All checks were made on the script that the signatures commit to. -/
  decided : ∃ signatures, ∀ check ∈ checks, DecidedOn env 0 signatures check

/-! ### Single signatures -/

theorem signedBy_single {signature key : Bytes}
    (verdict : env.checkSignature (connectedScript env 0 [signature]) signature key = .ok true) :
    SignedBy env 1 [key] [⟨signature, key, .ok true⟩] := by
  refine ⟨rfl, .refl _, [signature], fun check mem => ?_⟩
  obtain rfl := List.mem_singleton.mp mem
  exact ⟨List.mem_singleton_self _, verdict.symm⟩

/-- A check of a single signature whose verdict is left on top accepted the signature. -/
theorem signedBy_of_steps_checkSig {offset : Nat} {key : Bytes} {below : Stack}
    (active : s.isActive = true) (stack : s.stack = key :: below) (unchecked : s.checks = [])
    (start : s.separator = 0) (ran : steps env [⟨.op Opcode.checkSig, offset⟩] s = .ok () s')
    (good : s'.stack.isTrue = true) : SignedBy env 1 [key] s'.checks := by
  obtain ⟨-, _, signature, rest, accepted, taken, verdict, -, -, ends⟩ :=
    (steps_checkSig_cons_iff (by decide) rfl active).mp ran
  obtain rfl := steps_nil_eq_ok_iff.mp ends
  obtain ⟨rfl, -⟩ := List.cons.inj (stack.symm.trans taken)
  have accepts : accepted = true := by simpa using good
  subst accepts
  rw [start] at verdict
  simp only [unchecked]
  exact signedBy_single verdict

/-- The key is taken from the script. -/
theorem signedBy_of_steps_key {code : UInt8} {key : Bytes} {unlocked : Stack}
    (ran : steps env (Script.place 0 [.push code key, .op Opcode.checkSig]) { stack := unlocked } =
      .ok () s)
    (good : s.stack.isTrue = true) : SignedBy env 1 [key] s.checks := by
  simp only [Script.place] at ran
  obtain ⟨-, -, -, ran⟩ := (steps_push_cons_iff rfl).mp ran
  exact signedBy_of_steps_checkSig rfl rfl rfl rfl ran good

/-- The key is the one that was hashed and compared. -/
theorem signedBy_of_steps_keyHash {code : UInt8} {hash : Bytes} {unlocked : Stack}
    (ran : steps env (Script.place 0 [.op Opcode.dup, .op Opcode.hash160, .push code hash,
      .op Opcode.equalVerify, .op Opcode.checkSig]) { stack := unlocked } = .ok () s)
    (good : s.stack.isTrue = true) :
    ∃ key, (Hash.hash160 key).val = hash ∧ SignedBy env 1 [key] s.checks := by
  simp only [Script.place] at ran
  cases unlocked with
  | nil => exact absurd ran (steps_stackOp_cons_ne_ok (by decide) rfl rfl rfl)
  | cons key below =>
    obtain ⟨-, -, ran⟩ := (steps_stackOp_cons_iff (by decide) rfl rfl rfl).mp ran
    obtain ⟨-, -, ran⟩ := (steps_stackOp_cons_iff (by decide) rfl rfl rfl).mp ran
    obtain ⟨-, -, -, ran⟩ := (steps_push_cons_iff rfl).mp ran
    by_cases matching : hash = (Hash.hash160 key).val
    · have equal : StackOp.equalVerify.apply env.flags.requiresMinimal
          (hash :: (Hash.hash160 key).val :: key :: below) = .ok (key :: below) := if_pos matching
      obtain ⟨-, -, ran⟩ := (steps_stackOp_cons_iff (by decide) rfl rfl equal).mp ran
      exact ⟨key, matching.symm, signedBy_of_steps_checkSig rfl rfl rfl rfl ran good⟩
    · have unequal : StackOp.equalVerify.apply env.flags.requiresMinimal
          (hash :: (Hash.hash160 key).val :: key :: below) =
            .error (.evaluation .equalVerifyFailed) := if_neg matching
      exact absurd ran (steps_stackOp_cons_ne_ok (by decide) rfl rfl unequal)

/-! ### Many signatures -/

/-- Pushes stack their data up. -/
theorem state_of_steps_pushes {parts : List (UInt8 × Bytes)} {offset : Nat}
    (active : s.isActive = true)
    (ran : steps env (Script.place offset (Chunk.pushes parts)) s = .ok () s') :
    s' = { s with stack := (parts.map (·.2)).reverse ++ s.stack } := by
  induction parts generalizing offset s with
  | nil => exact steps_nil_eq_ok_iff.mp ran
  | cons part parts ih =>
    obtain ⟨-, -, -, rest⟩ := (steps_push_cons_iff active).mp ran
    rw [ih (s := { s with stack := part.2 :: s.stack }) active rest]
    simp

/-- A check of many signatures that does not fail, and whose verdict is left on top if it is left at
all, accepted as many signatures as the number below the keys says. -/
theorem signedBy_of_step_checkMultiSig {code : UInt8} {offset : Nat} {verify : Bool}
    {required : Nat} {keys : List Bytes} {below : Stack}
    (meaning : Instruction.ofCode code = .checkMultiSig verify) (active : s.isActive = true)
    (stack : s.stack = ScriptNumber.encode keys.length ::
      (keys.reverse ++ ScriptNumber.encode required :: below))
    (enough : required ≤ keys.length) (few : keys.length ≤ 16) (unchecked : s.checks = [])
    (start : s.separator = 0) (stepped : step env ⟨.op code, offset⟩ s = .ok () s')
    (good : s'.stack.isTrue = true) : SignedBy env required keys s'.checks := by
  obtain ⟨coded, -⟩ := step_op_eq_ok_iff.mp stepped
  obtain ⟨-, executed⟩ := stepCode_eq_ok_iff.mp coded
  rw [meaning, active, Bool.true_or, if_pos rfl, execute] at executed
  obtain ⟨accepted, t, checked, concluded⟩ := estate_bind_eq_ok.mp executed
  obtain ⟨operands, rest, made, walk⟩ := exists_walk_of_checkMultiSig checked
  obtain ⟨passed, rfl⟩ := conclude_eq_ok_iff.mp concluded
  have accepts : accepted = true := by
    cases verify with
    | true => exact passed rfl
    | false => simpa using good
  -- The numbers on the stack are those that the operands were counted with.
  obtain ⟨ofKeyCount, belowCount⟩ := List.cons.inj (walk.stack.symm.trans stack)
  have keyCount : operands.keys.length = keys.length := by
    have counts := walk.countsKeys
    rw [ofKeyCount, ScriptNumber.operand_encode few, Except.ok.injEq] at counts
    omega
  obtain ⟨sameKeys, belowKeys⟩ := List.append_inj belowCount (by simp [keyCount])
  have signatureCount : operands.signatures.length = required := by
    have counts := walk.countsSignatures
    rw [(List.cons.inj belowKeys).1, ScriptNumber.operand_encode (Nat.le_trans enough few),
      Except.ok.injEq] at counts
    omega
  have record : t.checks = made.reverse := by
    have unchanged : (counted code s).checks = [] := unchecked
    rw [walk.after, unchanged, List.append_nil]
  have fromStart : (counted code s).separator = 0 := start
  have inOrder := walk.inOrder
  rw [fromStart, sameKeys] at inOrder
  refine ⟨?_, ?_, operands.signatures.reverse, ?_⟩
  · rw [record, List.countP_reverse, walk.complete accepts, signatureCount]
  · have suffix : made.reverse.map (·.key) <:+ keys := by
      rw [List.map_reverse]
      exact List.reverse_prefix.mp (by simpa using inOrder.keys_prefix)
    rw [record]
    exact (List.filter_sublist.map _).trans suffix.sublist
  · intro check mem
    rw [record] at mem
    exact decidedOn_of_inOrder inOrder check (List.mem_reverse.mp mem)

/-- The numbers and the keys are taken from the script. -/
theorem signedBy_of_steps_multisig {check : UInt8} {required : Nat}
    {parts : List (UInt8 × Bytes)} {unlocked : Stack}
    (checks : check = Opcode.checkMultiSig ∨ check = Opcode.checkMultiSigVerify)
    (pos : 1 ≤ required) (enough : required ≤ parts.length) (few : parts.length ≤ 16)
    (ran : steps env (Script.place 0 (.op (Opcode.one + UInt8.ofNat required - 1) ::
      Chunk.pushes parts ++
        [.op (Opcode.one + UInt8.ofNat parts.length - 1), .op check])) { stack := unlocked } =
      .ok () s)
    (good : s.stack.isTrue = true) : SignedBy env required (parts.map (·.2)) s.checks := by
  have meaning : ∃ verify, Instruction.ofCode check = .checkMultiSig verify := by
    rcases checks with rfl | rfl
    · exact ⟨false, rfl⟩
    · exact ⟨true, rfl⟩
  obtain ⟨verify, meaning⟩ := meaning
  simp only [List.cons_append, Script.place, Script.place_append] at ran
  obtain ⟨_, threshold, ran⟩ := steps_cons_eq_ok_iff.mp ran
  obtain ⟨rfl, -⟩ := (step_number_eq_ok_iff pos (Nat.le_trans enough few)).mp threshold
  obtain ⟨_, pushed, ran⟩ := steps_append_eq_ok_iff.mp ran
  obtain rfl := state_of_steps_pushes rfl pushed
  obtain ⟨_, count, ran⟩ := steps_cons_eq_ok_iff.mp ran
  obtain ⟨rfl, -⟩ := (step_number_eq_ok_iff (Nat.le_trans pos enough) few).mp count
  obtain ⟨_, stepped, ends⟩ := steps_cons_eq_ok_iff.mp ran
  obtain rfl := steps_nil_eq_ok_iff.mp ends
  refine signedBy_of_step_checkMultiSig meaning rfl
    (show _ = ScriptNumber.encode _ :: (_ ++ ScriptNumber.encode required :: unlocked) from ?_)
    ?_ ?_ rfl rfl stepped good
  · simp [State.isActive]
  · simpa using enough
  · simpa using few

end Machine

/-! ### Recognised scripts -/

namespace Script

open Machine (SignedBy)

variable {env : Environment} {s : State} {chunks : List Chunk} {unlocked : Stack}

theorem signedBy_of_keyHash? {hash : Bytes} (good : ∀ chunk ∈ chunks, chunk.WellFormed)
    (found : (assemble chunks).keyHash? = some hash)
    (ran : Machine.steps env (place 0 chunks) { stack := unlocked } = .ok () s)
    (left : s.stack.isTrue = true) :
    ∃ key, (Hash.hash160 key).val = hash ∧ SignedBy env 1 [key] s.checks := by
  obtain ⟨-, code, rfl⟩ := eq_of_keyHash? good found
  exact Machine.signedBy_of_steps_keyHash ran left

theorem signedBy_of_key? {key : Bytes} (good : ∀ chunk ∈ chunks, chunk.WellFormed)
    (found : (assemble chunks).key? = some key)
    (ran : Machine.steps env (place 0 chunks) { stack := unlocked } = .ok () s)
    (left : s.stack.isTrue = true) : SignedBy env 1 [key] s.checks := by
  obtain ⟨code, rfl⟩ := eq_of_key? good found
  exact Machine.signedBy_of_steps_key ran left

theorem signedBy_of_multisig? {required : Nat} {keys : List Chunk}
    (good : ∀ chunk ∈ chunks, chunk.WellFormed)
    (found : (assemble chunks).multisig? = some (required, keys))
    (ran : Machine.steps env (place 0 chunks) { stack := unlocked } = .ok () s)
    (left : s.stack.isTrue = true) :
    ∃ data, (assemble chunks).multisigKeys? = some data ∧ SignedBy env required data s.checks := by
  obtain ⟨pos, enough, -, few, ⟨parts, rfl⟩, check, checks, eq⟩ := eq_of_multisig? good found
  have length : (Chunk.pushes parts).length = parts.length := List.length_map _
  rw [length] at enough few eq
  refine ⟨parts.map (·.2), ?_, ?_⟩
  · simp only [multisigKeys?, found, Option.bind_eq_bind, Option.bind_some]
    exact Chunk.mapM_data?_pushes parts
  · subst eq
    exact Machine.signedBy_of_steps_multisig checks pos enough few ran left

end Script

namespace Spend

open Machine (run SignedBy)

/-- When a script that asks for so many signatures lets an output be spent, as many signatures were
accepted by its run: for keys at different places among those of a multisig script, for the key of a
script that pays to a key, and for a key with the hash that a script pays to. -/
theorem required_signatures_are_accepted {program : Bytes} {locking : Script} {required : Nat}
    (parsed : Script.parse program = .ok locking)
    (asks : locking.requiredSignatures? = some required) {unlocking : Script} {tx : Transaction}
    {index : Nat} {flags : Flags} (spends : verify unlocking tx index locking flags = .ok ()) :
    let env : Environment := ⟨some ⟨tx, index⟩, locking, flags⟩
    ∃ unlocked s, unlocking.execute (some ⟨tx, index⟩) flags [] = .ok unlocked ∧
      run env { stack := unlocked } = .ok () s ∧
      required ≤ s.checks.countP (·.accepted) ∧
      (locking.isMultisig = true →
        ∃ keys, locking.multisigKeys? = some keys ∧ SignedBy env required keys s.checks) ∧
      (locking.isKey = true → ∃ key, locking.key? = some key ∧ SignedBy env 1 [key] s.checks) ∧
      (locking.isKeyHash = true → ∃ hash key, locking.payeeHash? = some hash ∧
        (Hash.hash160 key).val = hash ∧ SignedBy env 1 [key] s.checks) := by
  intro env
  obtain ⟨chunks, good, -, rfl⟩ := Script.parse_eq_ok_iff.mp parsed
  obtain ⟨-, -, -, -, unlocked, _, _, unlocks, locks, left, -⟩ := verify_eq_ok_iff.mp spends
  obtain ⟨s, ran, closed, rfl⟩ := Script.execute_eq_ok_iff.mp locks
  have ofMultisig (multi : (Script.assemble chunks).isMultisig = true) : ∃ keys,
      (Script.assemble chunks).multisigKeys? = some keys ∧
        SignedBy env required keys s.checks := by
    obtain ⟨⟨m, keys⟩, found⟩ := Option.isSome_iff_exists.mp multi
    have same : m = required := by simpa [Script.requiredSignatures?, found] using asks
    subst same
    exact Script.signedBy_of_multisig? good found ran left
  have ofKey (single : (Script.assemble chunks).isKey = true) : ∃ key,
      (Script.assemble chunks).key? = some key ∧ SignedBy env 1 [key] s.checks := by
    obtain ⟨key, found⟩ := Option.isSome_iff_exists.mp single
    exact ⟨key, found, Script.signedBy_of_key? good found ran left⟩
  have ofKeyHash (hashed : (Script.assemble chunks).isKeyHash = true) : ∃ hash key,
      (Script.assemble chunks).payeeHash? = some hash ∧ (Hash.hash160 key).val = hash ∧
        SignedBy env 1 [key] s.checks := by
    obtain ⟨hash, found⟩ := Option.isSome_iff_exists.mp hashed
    obtain ⟨key, matching, signed⟩ := Script.signedBy_of_keyHash? good found ran left
    exact ⟨hash, key, by rw [Script.payeeHash?, found]; rfl, matching, signed⟩
  refine ⟨unlocked, s, unlocks, Machine.run_eq_ok_iff.mpr ⟨ran, closed⟩, ?_, ofMultisig, ofKey,
    ofKeyHash⟩
  by_cases multi : (Script.assemble chunks).isMultisig = true
  · obtain ⟨keys, -, signed⟩ := ofMultisig multi
    exact signed.accepted.ge
  · have none : (Script.assemble chunks).multisig? = none := by
      simpa [Script.isMultisig] using multi
    simp only [Script.requiredSignatures?, none, Option.ite_none_right_eq_some,
      Option.some.injEq, Bool.or_eq_true] at asks
    obtain ⟨hashed | single, rfl⟩ := asks
    · obtain ⟨_, _, -, -, signed⟩ := ofKeyHash hashed
      exact signed.accepted.ge
    · obtain ⟨_, -, signed⟩ := ofKey single
      exact signed.accepted.ge

/-- A script that pays to the holder's key, which is not pushed in the shortest way. -/
def holderLocking : Script :=
  .assemble [.push Opcode.pushData1 holderKey, .op Opcode.checkSig]

/-- The holder's signature is accepted for the key that the script is recognised to pay to. -/
theorem required_signatures_are_accepted_holder :
    let unlocking := Script.build [.data holderSignature]
    let flags := Flags.ofList [.scriptHash, .strictEncoding]
    let env : Environment := ⟨some ⟨plainSpend, 0⟩, holderLocking, flags⟩
    Script.parse holderLocking.program = .ok holderLocking ∧
    holderLocking.requiredSignatures? = some 1 ∧
    verify unlocking plainSpend 0 holderLocking flags = .ok () ∧
    ∃ s, run env { stack := [holderSignature] } = .ok () s ∧ SignedBy env 1 [holderKey] s.checks := by
  intro unlocking flags env
  have keyLength : holderKey.length = 65 := by decide +kernel
  have parsed : Script.parse holderLocking.program = .ok holderLocking := by
    apply Script.parse_assemble
    simp only [List.forall_mem_cons]
    exact ⟨.pushData1 (by omega), .op (by decide), by simp⟩
  have asks : holderLocking.requiredSignatures? = some 1 := by decide +kernel
  have left : unlocking.execute (some ⟨plainSpend, 0⟩) flags [] = .ok [holderSignature] := by cbv
  have digest (script : Script) :
      SignatureHash.digest plainSpend 0 script ⟨0x03⟩ = .ok SignatureHash.withoutOutput := by cbv
  have verdict (connected : Script) :
      env.checkSignature connected holderSignature holderKey = .ok true := by
    apply (Environment.checkSignature_eq_ok_true_iff_passesCheck rfl).mpr
    exact
      { layout := fun _ _ => by cbv
        hashType := fun _ _ => by cbv
        plainKey := fun _ => by cbv
        verifies := holder_signs _ digest _ }
  have locks : holderLocking.execute (some ⟨plainSpend, 0⟩) flags [holderSignature] =
      .ok [[1]] := by
    refine Script.execute_eq_ok_iff.mpr ⟨_, (Machine.steps_push_cons_iff rfl).mpr ⟨?_, ?_, ?_,
      (Machine.steps_checkSig_cons_iff (by decide) rfl rfl).mpr ⟨?_, holderKey, holderSignature, [],
        true, rfl, verdict _, fun _ => rfl, ?_, rfl⟩⟩, rfl, rfl⟩
    · rw [keyLength]
      decide
    all_goals decide
  have spends : verify unlocking plainSpend 0 holderLocking flags = .ok () := by
    have plain : holderLocking.isScriptHash = false :=
      Script.isScriptHash_of_start (show _ = some Opcode.pushData1 from rfl) (by decide)
    exact (verify_eq_ok_iff_of_plain plain).mpr ⟨by decide, by decide +kernel, by decide +kernel,
      fun _ => by decide +kernel, _, _, left, locks, rfl, fun _ _ => rfl⟩
  obtain ⟨unlocked, s, unlocks, ran, -, -, ofKey, -⟩ :=
    required_signatures_are_accepted parsed asks spends
  obtain rfl := Except.ok.inj (unlocks.symm.trans left)
  obtain ⟨key, found, signed⟩ := ofKey (by decide +kernel)
  have isHolder : holderLocking.key? = some holderKey := by decide +kernel
  obtain rfl := Option.some.inj (found.symm.trans isHolder)
  exact ⟨parsed, asks, spends, s, ran, signed⟩

end Spend

end TokenLedger
