import Mathlib
import TokenLedger.Proofs.Machine.Pushes
import TokenLedger.Proofs.Machine.SignedBytes

/-!
# The number of signature checks

The signature operations of a script are counted without running it: one for a check of a single
signature, and for a check of many the number right before it, or as many keys as there may be. A
run takes the number of keys from the stack and makes no more checks than that, and the number
right before is the one on top of the stack, because both stand in the same part of the script.
-/

namespace TokenLedger

/-! ### Codes -/

theorem Instruction.code_of_checkMultiSig {code : UInt8} {verify : Bool}
    (meaning : ofCode code = .checkMultiSig verify) :
    code = Opcode.checkMultiSig ∨ code = Opcode.checkMultiSigVerify := by
  have counts := (checksManySignatures_iff code).mpr ⟨verify, meaning⟩
  simpa [Chunk.checksManySignatures] using counts

namespace Script

theorem chunkSigOps_checkSig {accurate : Bool} {before code : UInt8} {verify : Bool}
    (meaning : Instruction.ofCode code = .checkSig verify) :
    chunkSigOps accurate before code = 1 := by
  rw [chunkSigOps, if_pos (Instruction.code_of_checkSig meaning)]

theorem chunkSigOps_checkMultiSig {accurate : Bool} {before code : UInt8} {verify : Bool}
    (meaning : Instruction.ofCode code = .checkMultiSig verify) :
    chunkSigOps accurate before code =
      if accurate ∧ Opcode.one ≤ before ∧ before ≤ Opcode.sixteen then
        ((Opcode.number? before).getD 0).toNat
      else Limits.keys := by
  have many := Instruction.code_of_checkMultiSig meaning
  have single : ¬ (code = Opcode.checkSig ∨ code = Opcode.checkSigVerify) := by
    rcases many with rfl | rfl <;> decide
  rw [chunkSigOps, if_neg single, if_pos many]
  rfl

/-- Without the numbers as many keys are counted as there may be. -/
theorem chunkSigOps_true_le_false (before code : UInt8) :
    chunkSigOps true before code ≤ chunkSigOps false before code := by
  unfold chunkSigOps
  split
  · exact Nat.le_refl _
  split
  · simp only [Bool.false_eq_true, false_and, if_false]
    split
    next number =>
      obtain ⟨n, -, few, -, value⟩ := Opcode.IsNumber.exists_number number.2
      rw [value, Option.getD_some, Int.toNat_natCast]
      omega
    next => exact Nat.le_refl _
  · exact Nat.le_refl _

theorem sigOpsFrom_true_le_false (before : UInt8) (chunks : List PlacedChunk) :
    sigOpsFrom true before chunks ≤ sigOpsFrom false before chunks := by
  induction chunks generalizing before with
  | nil => exact Nat.le_refl _
  | cons c chunks ih => exact Nat.add_le_add (chunkSigOps_true_le_false before c.code) (ih c.code)

end Script

namespace Machine

variable {env : Environment} {s s' : State} {α β : Type} {n k : Nat}

/-! ### Checks that an action makes -/

/-- However the action ends, it makes so many checks at most. -/
def ChecksAtMost (n : Nat) (m : MachineM α) (s : State) : Prop :=
  (endState (m s)).checks.length ≤ s.checks.length + n

namespace ChecksAtMost

variable {m : MachineM α}

theorem of_same (same : (endState (m s)).checks = s.checks) : ChecksAtMost n m s := by
  unfold ChecksAtMost
  rw [same]
  exact Nat.le_add_right _ _

theorem mono (fewer : ChecksAtMost k m s) (le : k ≤ n) : ChecksAtMost n m s :=
  Nat.le_trans fewer (Nat.add_le_add_left le _)

theorem bind {next : α → MachineM β} (head : ChecksAtMost n m s)
    (tail : ∀ value between, m s = .ok value between → ChecksAtMost k (next value) between) :
    ChecksAtMost (n + k) (m >>= next) s := by
  unfold ChecksAtMost at head ⊢
  cases ran : m s with
  | error e t =>
    rw [ran] at head
    rw [estate_bind_of_error ran]
    simp only [endState] at head ⊢
    omega
  | ok value between =>
    rw [ran] at head
    have later : (endState (next value between)).checks.length ≤ between.checks.length + k :=
      tail value between ran
    rw [estate_bind_of_ok ran]
    simp only [endState] at head
    omega

/-- Actions that do not check signatures are free. -/
theorem of_records (none : Records (fun _ => False) m s) : ChecksAtMost n m s := by
  obtain ⟨made, checks, impossible⟩ := none
  obtain rfl : made = [] := List.eq_nil_iff_forall_not_mem.mpr impossible
  exact of_same checks

theorem behind {next : α → MachineM β} (head : Records (fun _ => False) m s)
    (tail : ∀ value between, m s = .ok value between → ChecksAtMost k (next value) between) :
    ChecksAtMost k (m >>= next) s := by
  have free : ChecksAtMost (0 + k) (m >>= next) s := bind (of_records head) tail
  rwa [Nat.zero_add] at free

theorem ite {condition : Prop} [Decidable condition] {m' : MachineM α} (yes : ChecksAtMost n m s)
    (no : ChecksAtMost n m' s) : ChecksAtMost n (if condition then m else m') s := by
  split
  · exact yes
  · exact no

end ChecksAtMost

/-! ### Instructions that check signatures -/

theorem checkSig_checksAtMost : ChecksAtMost 1 (checkSig env) s := by
  rcases taken : s.stack with _ | ⟨key, _ | ⟨signature, rest⟩⟩
  · exact .of_same (by simp [checkSig, taken, endState])
  · exact .of_same (by simp [checkSig, taken, endState])
  · simp [ChecksAtMost, checkSig, taken, checkRecorded_eq]

/-- A walk along both lists looks at each key once at most. -/
theorem matchFrom_checksAtMost (connected : Script) (signatures keys : List Bytes) :
    ChecksAtMost keys.length (matchFrom (checkRecorded env connected) signatures keys 0 0) s := by
  obtain ⟨made, inOrder, -, walk⟩ := @matchFrom_checkRecorded env connected signatures keys s
  have few := inOrder.keys_prefix.length_le
  rw [List.length_map] at few
  unfold ChecksAtMost
  rw [walk, endState_finish, List.length_append, List.length_reverse]
  omega

/-- The number on top of the stack bounds the checks, and there are never more than keys may be. -/
theorem checkMultiSig_checksAtMost :
    ChecksAtMost (min (topNumber s) Limits.keys) (checkMultiSig env) s := by
  apply ChecksAtMost.behind (popCount_records _ _)
  intro keyCount _ taken
  obtain ⟨keyBytes, belowCount, stack, countsKeys, inRange, rfl⟩ := popCount_eq_ok_iff.mp taken
  rw [topNumber_of_operand stack countsKeys, Nat.min_eq_left inRange]
  apply ChecksAtMost.behind (countOperations_records _)
  intro _ _ _
  apply ChecksAtMost.behind (popBelowOne_records _)
  intro keys _ taken
  obtain ⟨_, _, -, rfl, rfl⟩ := popBelowOne_eq_ok_iff.mp taken
  apply ChecksAtMost.behind (popCount_records _ _)
  intro signatureCount _ _
  apply ChecksAtMost.behind (popBelowOne_records _)
  intro signatures between _
  unfold ChecksAtMost
  rw [estate_get_bind]
  apply ChecksAtMost.bind (k := 0) (matchFrom_checksAtMost _ signatures keys)
  intro accepted _ _
  apply ChecksAtMost.behind pop_records
  intro dummy _ _
  exact .ite (.of_same rfl) (.of_same rfl)

/-! ### All other instructions -/

theorem onStack_records {kind : SignatureCheck → Prop} (act : Stack → Except Error Stack) :
    Records kind (onStack act) s := by
  apply Records.of_same
  unfold onStack
  cases act s.stack <;> rfl

theorem conditional_records {kind : SignatureCheck → Prop} (op : Conditional) :
    Records kind (conditional op) s := by
  apply Records.of_same
  cases op with
  | branch expected =>
    unfold conditional
    dsimp only
    split
    · rfl
    · cases s.stack <;> rfl
  | otherwise | close =>
    unfold conditional
    dsimp only
    cases s.branches <;> rfl

theorem execute_records_none {instruction : Instruction}
    (other : ¬ ChecksSignatures instruction) (code : UInt8) (offset : Nat) :
    Records (fun _ => False) (execute env code offset instruction) s := by
  cases instruction with
  | checkSig verify => exact absurd ⟨verify, .inl rfl⟩ other
  | checkMultiSig verify => exact absurd ⟨verify, .inr rfl⟩ other
  | stack op => exact onStack_records _
  | conditional op => exact conditional_records op
  | toAltStack =>
    apply pop_records.bind
    intro top between _
    exact .of_same rfl
  | fromAltStack =>
    apply Records.of_same
    simp only [execute]
    cases s.altStack <;> rfl
  | checkLockTime => exact .ite (onStack_records _) (.ite (.of_same rfl) (.of_same rfl))
  | reservedNop => exact .ite (.of_same rfl) (.of_same rfl)
  | nop | codeSeparator | fail | disabled | forbidden | unknown => exact .of_same rfl

/-! ### Steps -/

/-- Directly behind the code of a number that was executed the number is on top. -/
def Follows (before : UInt8) (s : State) : Prop :=
  Opcode.IsNumber before → s.isActive = true →
    topNumber s = ((Opcode.number? before).getD 0).toNat

/-- The checks of an instruction are among those that are counted for its code. Nothing that takes
effect in a skipped part checks signatures. -/
theorem execute_checksAtMost {before code : UInt8} (follows : Follows before s)
    (executed : (s.isActive || takesEffectWhenSkipped (Instruction.ofCode code)) = true)
    (offset : Nat) :
    ChecksAtMost (Script.chunkSigOps true before code)
      (execute env code offset (Instruction.ofCode code)) s := by
  by_cases checks : ChecksSignatures (Instruction.ofCode code)
  · obtain ⟨verify, meaning | meaning⟩ := checks
    · rw [Script.chunkSigOps_checkSig meaning, meaning]
      apply ChecksAtMost.bind (k := 0) checkSig_checksAtMost
      intro accepted _ _
      exact .of_same (checks_conclude verify accepted _ _)
    · rw [meaning] at executed
      have active : s.isActive = true := by simpa [takesEffectWhenSkipped] using executed
      rw [Script.chunkSigOps_checkMultiSig meaning, meaning]
      have walk : ChecksAtMost (min (topNumber s) Limits.keys + 0)
          (execute env code offset (.checkMultiSig verify)) s := by
        apply ChecksAtMost.bind checkMultiSig_checksAtMost
        intro accepted _ _
        exact .of_same (checks_conclude verify accepted _ _)
      apply walk.mono
      split
      next number =>
        rw [← follows number.2 active]
        exact Nat.min_le_left _ _
      next => exact Nat.min_le_right _ _
  · exact .of_records (execute_records_none checks code offset)

theorem stepPush_records {kind : SignatureCheck → Prop} (chunk : Chunk) (data : Bytes) :
    Records kind (stepPush env chunk data) s := by
  exact .ite (.of_same rfl) (.get_bind (.ite (.ite (.of_same rfl) (.of_same rfl)) (.of_same rfl)))

theorem stepCode_checksAtMost {before : UInt8} (follows : Follows before s) (code : UInt8)
    (offset : Nat) :
    ChecksAtMost (Script.chunkSigOps true before code) (stepCode env code offset) s := by
  have behind (t : State) (follows : Follows before t) :
      ChecksAtMost (Script.chunkSigOps true before code)
        (get >>= fun s => if s.isActive || takesEffectWhenSkipped (Instruction.ofCode code)
          then execute env code offset (Instruction.ofCode code) else pure ()) t := by
    unfold ChecksAtMost
    rw [estate_get_bind]
    split
    next executed => exact execute_checksAtMost follows executed offset
    next => exact ChecksAtMost.of_same rfl
  unfold stepCode
  dsimp only
  split
  · apply ChecksAtMost.behind (countOperations_records 1)
    intro _ _ counts
    obtain ⟨-, rfl⟩ := countOperations_eq_ok_iff.mp counts
    exact behind _ follows
  · exact behind s follows

theorem step_checksAtMost {before : UInt8} (follows : Follows before s) (c : PlacedChunk) :
    ChecksAtMost (Script.chunkSigOps true before c.code) (step env c) s := by
  obtain ⟨chunk, offset⟩ := c
  have sizes (t : State) : ChecksAtMost 0 checkStackSize t := .of_same (checks_checkStackSize t)
  cases chunk with
  | push code data =>
    exact .behind (stepPush_records _ data) fun _ t _ => (sizes t).mono (Nat.zero_le _)
  | op code =>
    exact (stepCode_checksAtMost follows code offset).bind fun _ t _ => sizes t

theorem follows_of_step {c : PlacedChunk} (good : c.chunk.WellFormed)
    (stepped : step env c s = .ok () s') : Follows c.code s' := by
  intro number active
  obtain ⟨n, pos, few, code, value⟩ := Opcode.IsNumber.exists_number number
  obtain ⟨chunk, offset⟩ := c
  have isCode : chunk = .op chunk.code :=
    good.eq_op (UInt8.lt_of_lt_of_le (by decide) number.1)
  obtain rfl : chunk = .op (Opcode.one + UInt8.ofNat n - 1) := by
    rw [isCode]
    exact congrArg Chunk.op code
  obtain ⟨after, -⟩ := (step_number_eq_ok_iff pos few).mp stepped
  have wasActive : s.isActive = true := by
    cases was : s.isActive with
    | true => rfl
    | false =>
      rw [after, was] at active
      exact absurd (was.symm.trans active) (by decide)
  have stack : s'.stack = ScriptNumber.encode (n : Int) :: s.stack := by
    rw [after, if_pos wasActive]
  rw [value, Option.getD_some, Int.toNat_natCast]
  exact topNumber_of_operand stack (ScriptNumber.operand_encode few false)

/-! ### Runs -/

theorem steps_checksAtMost {before : UInt8} (follows : Follows before s)
    {chunks : List PlacedChunk} (good : ∀ c ∈ chunks, c.chunk.WellFormed) :
    ChecksAtMost (Script.sigOpsFrom true before chunks) (steps env chunks) s := by
  induction chunks generalizing before s with
  | nil => exact .of_same rfl
  | cons c chunks ih =>
    apply (step_checksAtMost follows c).bind
    intro _ between stepped
    exact ih (follows_of_step (good c List.mem_cons_self) stepped) fun c mem =>
      good c (List.mem_cons_of_mem _ mem)

/-- At the beginning of a script there is no number before it. -/
theorem run_checksAtMost {chunks : List Chunk} (good : ∀ chunk ∈ chunks, chunk.WellFormed)
    (script : env.script = .assemble chunks) :
    ChecksAtMost (env.script.sigOpCount true) (run env) s := by
  have start : Follows Opcode.invalid s := fun number => absurd number.2 (by decide)
  have goodPlaced : ∀ c ∈ env.script.chunks, c.chunk.WellFormed := by
    intro c mem
    rw [script] at mem
    obtain ⟨front, back, rfl, -⟩ := Script.exists_append_of_mem_place mem
    exact good c.chunk (by simp)
  apply (steps_checksAtMost start goodPlaced).bind (k := 0)
  intro _ between _
  exact .of_same (by rw [estate_get_bind]; split <;> rfl)

end Machine

namespace Script

/-- No run of a parsed script, be it failing, checks more signatures than are counted for the
script, and counting twenty keys for every check of many gives no smaller number. -/
theorem sigOpCount_bounds_checks {program : Bytes} {script : Script}
    (parsed : parse program = .ok script) :
    (∀ (context : Option SpendContext) (flags : Flags) (stack : Stack),
      (Machine.endState (Machine.run ⟨context, script, flags⟩ { stack })).checks.length ≤
        script.sigOpCount true) ∧
    script.sigOpCount true ≤ script.sigOpCount false := by
  obtain ⟨chunks, good, -, rfl⟩ := parse_eq_ok_iff.mp parsed
  refine ⟨fun context flags stack => ?_, sigOpsFrom_true_le_false _ _⟩
  have bound : Machine.ChecksAtMost ((assemble chunks).sigOpCount true)
      (Machine.run ⟨context, assemble chunks, flags⟩) { stack } :=
    Machine.run_checksAtMost good rfl
  unfold Machine.ChecksAtMost at bound
  rwa [List.length_nil, Nat.zero_add] at bound

/-- One of two keys has to sign, and the check of a third one fails the run: all that is counted is
checked. -/
theorem sigOpCount_bounds_checks_two_keys :
    let program : Bytes := [0x52, 0xae, 0x91, 0x69, 0xad]
    let stack : Stack := [[9], [8], [1], [7], [], [6], [5]]
    ∃ script, parse program = .ok script ∧
      (Machine.endState (Machine.run ⟨none, script, Flags.ofList []⟩ { stack })).checks.length =
        3 ∧
      script.sigOpCount true = 3 ∧ script.sigOpCount true ≤ script.sigOpCount false := by
  intro program stack
  have parsed : parse program = .ok (assemble
      [.op 0x52, .op 0xae, .op 0x91, .op 0x69, .op 0xad]) := by cbv
  have made : (Machine.endState (Machine.run ⟨none, assemble
      [.op 0x52, .op 0xae, .op 0x91, .op 0x69, .op 0xad], Flags.ofList []⟩ { stack })).checks.length
      = 3 := by cbv
  obtain ⟨bounds, looser⟩ := sigOpCount_bounds_checks parsed
  have atLeast := bounds none (Flags.ofList []) stack
  rw [made] at atLeast
  exact ⟨_, parsed, made, Nat.le_antisymm (by cbv) atLeast, looser⟩

end Script

end TokenLedger
